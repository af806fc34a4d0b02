/-
# The layout of a line

A line is words with blanks around them, and blanks between two words are never missing
(`LaidOut`). Every line is that in one way, and its words are the ones that it is cut into
(`words_eq_iff`). What a line does is told by its words, so it does not matter which blanks
there are and how many; and of an arithmetic instruction the case of the first two words
does not matter either (`SameInstruction`), also not in the report of a name that means no
operation.

Key definitions: `LaidOut`, `joined`, `Separated`, `SameInstruction`.
Key theorems: `words_eq_iff`, `laidOut_joined`, `LaidOut.exists_joined`, `execute_congr`,
`Session.executeLine_of_same_words`.
-/
import RegisterMachine.Arithmetic
import RegisterMachine.Proofs.Installation

namespace RegisterMachine

/-! ### Words and blanks -/

/-- There are blanks only. -/
def Blank (cs : List Char) : Prop := ∀ c ∈ cs, isBlank c = true

/-- There is a character, and no blank. -/
def Solid (cs : List Char) : Prop := cs ≠ [] ∧ ∀ c ∈ cs, isBlank c = false

/-- A text is made of these words, with blanks before, between and after them. After a word
the text ends or there is a blank. -/
inductive LaidOut : List Char → List String → Prop
  | blank {gap : List Char} (hgap : Blank gap) : LaidOut gap []
  | word {gap : List Char} {w : String} {rest : List Char} {ws : List String}
      (hgap : Blank gap) (hw : Solid w.toList) (hend : ∀ c ∈ rest.head?, isBlank c = true)
      (h : LaidOut rest ws) : LaidOut (gap ++ (w.toList ++ rest)) (w :: ws)

section Words

variable {cs gap w : List Char}

/-- Blanks in front make empty pieces. -/
theorem filter_pieces_gap (hgap : Blank gap) (cs : List Char) :
    (pieces (gap ++ cs)).filter (fun w => !w.isEmpty) =
      (pieces cs).filter fun w => !w.isEmpty := by
  induction gap with
  | nil => rfl
  | cons c gap ih =>
    rw [List.cons_append, pieces, if_pos (hgap c List.mem_cons_self), List.filter_cons_of_neg
      (by simp)]
    exact ih fun d hd => hgap d (List.mem_cons_of_mem _ hd)

/-- Characters that are no blanks belong to the first piece of what follows. -/
theorem pieces_solid (hw : ∀ c ∈ w, isBlank c = false) {first : List Char}
    {rest : List (List Char)} (hcs : pieces cs = first :: rest) :
    pieces (w ++ cs) = (w ++ first) :: rest := by
  induction w with
  | nil => exact hcs
  | cons c w ih =>
    have hrest := ih fun d hd => hw d (List.mem_cons_of_mem _ hd)
    rw [List.cons_append, pieces, if_neg (by simp [hw c List.mem_cons_self]), hrest]
    rfl

theorem exists_pieces_eq_nil_cons (h : ∀ c ∈ cs.head?, isBlank c = true) :
    ∃ rest, pieces cs = [] :: rest := by
  cases cs with
  | nil => exact ⟨[], rfl⟩
  | cons c cs => exact ⟨pieces cs, by rw [pieces, if_pos (h c rfl)]⟩

theorem filter_pieces_word (hw : Solid w) (hcs : ∀ c ∈ cs.head?, isBlank c = true) :
    (pieces (w ++ cs)).filter (fun w => !w.isEmpty) =
      w :: (pieces cs).filter fun w => !w.isEmpty := by
  obtain ⟨rest, hrest⟩ := exists_pieces_eq_nil_cons hcs
  rw [pieces_solid hw.2 hrest, hrest, List.append_nil, List.filter_cons_of_pos (by simp [hw.1]),
    List.filter_cons_of_neg (by simp)]

/-- The words of a text are found. -/
theorem LaidOut.map_pieces {ws : List String} (h : LaidOut cs ws) :
    ((pieces cs).filter fun w => !w.isEmpty).map String.ofList = ws := by
  induction h with
  | blank hgap =>
    have hnone := filter_pieces_gap hgap []
    rw [List.append_nil] at hnone
    rw [hnone]
    rfl
  | word hgap hw hend _ ih =>
    rw [filter_pieces_gap hgap, filter_pieces_word hw hend, List.map_cons, ih, String.ofList_toList]

theorem LaidOut.cons_blank {c : Char} {ws : List String} (hc : isBlank c = true)
    (h : LaidOut cs ws) : LaidOut (c :: cs) ws := by
  cases h with
  | blank hgap => exact .blank (List.forall_mem_cons.2 ⟨hc, hgap⟩)
  | word hgap hw hend h =>
    rw [← List.cons_append]
    exact .word (List.forall_mem_cons.2 ⟨hc, hgap⟩) hw hend h

theorem LaidOut.solid {ws : List String} (hw : Solid w)
    (hend : ∀ c ∈ cs.head?, isBlank c = true) (h : LaidOut cs ws) :
    LaidOut (w ++ cs) (String.ofList w :: ws) := by
  have hlaid := @LaidOut.word [] (String.ofList w) cs ws (by simp [Blank])
    (by rwa [String.toList_ofList]) hend h
  rwa [List.nil_append, String.toList_ofList] at hlaid

/-- A character in front that is no blank belongs to a word that starts the text, or is a
word by itself. -/
theorem LaidOut.exists_cons_solid {c : Char} {ws : List String} (hc : isBlank c = false)
    (h : LaidOut cs ws) : ∃ ws', LaidOut (c :: cs) ws' := by
  have hsingle : Solid [c] := ⟨List.cons_ne_nil _ _, by simpa using hc⟩
  cases h with
  | @blank gap hgap =>
    exact ⟨_, .solid hsingle (fun d hd => hgap d (List.mem_of_mem_head? hd)) (.blank hgap)⟩
  | @word gap word rest ws hgap hword hend h =>
    cases gap with
    | nil =>
      have hlonger : Solid (c :: word.toList) :=
        ⟨List.cons_ne_nil _ _, List.forall_mem_cons.2 ⟨hc, hword.2⟩⟩
      exact ⟨_, .solid hlonger hend h⟩
    | cons b gap =>
      have hblank : ∀ d ∈ ((b :: gap) ++ (word.toList ++ rest)).head?, isBlank d = true := by
        intro d hd
        obtain rfl := Option.some.inj hd
        exact hgap b List.mem_cons_self
      exact ⟨_, .solid hsingle hblank (.word hgap hword hend h)⟩

theorem exists_laidOut (cs : List Char) : ∃ ws, LaidOut cs ws := by
  induction cs with
  | nil => exact ⟨[], .blank (by simp [Blank])⟩
  | cons c cs ih =>
    obtain ⟨ws, h⟩ := ih
    cases hc : isBlank c with
    | true => exact ⟨ws, h.cons_blank hc⟩
    | false => exact h.exists_cons_solid hc

/-- **A line is cut into the words that it is made of.** -/
theorem words_eq_iff {line : String} {ws : List String} :
    words line = ws ↔ LaidOut line.toList ws := by
  constructor
  · rintro rfl
    obtain ⟨ws, h⟩ := exists_laidOut line.toList
    have hwords : words line = ws := h.map_pieces
    rwa [hwords]
  · exact fun h => h.map_pieces

end Words

/-! ### Words joined by blanks -/

/-- Words, with blanks in front and after each of them. -/
def joined (front : String) : List (String × String) → String
  | [] => front
  | (w, gap) :: parts => front ++ (w ++ joined gap parts)

/-- The words are words, the blanks are blanks, and they are missing after the last word
only. -/
structure Separated (parts : List (String × String)) : Prop where
  solid : ∀ p ∈ parts, Solid p.1.toList
  blank : ∀ p ∈ parts, Blank p.2.toList
  parted : ∀ p ∈ parts.dropLast, p.2 ≠ ""

section Joined

variable {front gap w : String} {parts : List (String × String)}

theorem Separated.tail (h : Separated ((w, gap) :: parts)) : Separated parts where
  solid p hp := h.solid p (List.mem_cons_of_mem _ hp)
  blank p hp := h.blank p (List.mem_cons_of_mem _ hp)
  parted p hp := by
    cases parts with
    | nil => cases hp
    | cons q parts => exact h.parted p (List.mem_cons_of_mem _ hp)

theorem Separated.isBlank_head (h : Separated ((w, gap) :: parts)) :
    ∀ c ∈ (joined gap parts).toList.head?, isBlank c = true := by
  have hgap := h.blank _ List.mem_cons_self
  intro c hc
  cases parts with
  | nil => exact hgap c (List.mem_of_mem_head? hc)
  | cons q parts =>
    have hne : gap.toList ≠ [] := fun hnil =>
      h.parted (w, gap) List.mem_cons_self (String.toList_eq_nil_iff.1 hnil)
    obtain ⟨d, ds, hd⟩ := List.exists_cons_of_ne_nil hne
    rw [joined, String.toList_append, hd, List.cons_append, List.head?_cons] at hc
    obtain rfl := Option.some.inj hc
    exact hgap d (hd ▸ List.mem_cons_self)

/-- **Words that are joined by blanks are the words of the line.** -/
theorem laidOut_joined (hfront : Blank front.toList) (h : Separated parts) :
    LaidOut (joined front parts).toList (parts.map Prod.fst) := by
  induction parts generalizing front with
  | nil => exact .blank hfront
  | cons p parts ih =>
    rw [joined, String.toList_append, String.toList_append]
    exact .word hfront (h.solid p List.mem_cons_self) h.isBlank_head
      (ih (h.blank p List.mem_cons_self) h.tail)

theorem Separated.cons (hw : Solid w.toList) (hgap : Blank gap.toList) (h : Separated parts)
    (hend : ∀ c ∈ (joined gap parts).toList.head?, isBlank c = true) :
    Separated ((w, gap) :: parts) where
  solid := List.forall_mem_cons.2 ⟨hw, h.solid⟩
  blank := List.forall_mem_cons.2 ⟨hgap, h.blank⟩
  parted := by
    cases parts with
    | nil => simp
    | cons q parts =>
      refine List.forall_mem_cons.2 ⟨?_, h.parted⟩
      -- without a blank the text would start with the next word
      rintro rfl
      obtain ⟨hne, hsolid⟩ := h.solid q List.mem_cons_self
      obtain ⟨c, cs, hc⟩ := List.exists_cons_of_ne_nil hne
      have hblank := hend c (by simp [joined, hc])
      rw [hsolid c (hc ▸ List.mem_cons_self)] at hblank
      cases hblank

/-- **Every line is made by joining its words.** -/
theorem LaidOut.exists_joined {cs : List Char} {ws : List String} (h : LaidOut cs ws) :
    ∃ front parts, Blank front.toList ∧ Separated parts ∧
      (joined front parts).toList = cs ∧ parts.map Prod.fst = ws := by
  induction h with
  | @blank gap hgap =>
    refine ⟨String.ofList gap, [], ?_, ⟨by simp, by simp, by simp⟩, ?_, rfl⟩
    · rwa [String.toList_ofList]
    · rw [joined, String.toList_ofList]
  | @word gap w rest ws hgap hw hend _ ih =>
    obtain ⟨front, parts, hfront, hparts, hrest, hws⟩ := ih
    refine ⟨String.ofList gap, (w, front) :: parts, ?_, .cons hw hfront hparts (hrest ▸ hend), ?_,
      ?_⟩
    · rwa [String.toList_ofList]
    · rw [joined, String.toList_append, String.toList_append, String.toList_ofList, hrest]
    · rw [List.map_cons, hws]

end Joined

/-! ### Instructions with the same words -/

/-- The words are the same, but for the case of the letters in the first two. -/
def SameInstruction (ws ws' : List String) : Prop :=
  (ws.take 2).map upperCase = (ws'.take 2).map upperCase ∧ ws.drop 2 = ws'.drop 2

/-- An operation is found and reported under its name in upper case. -/
theorem evaluate_congr {name name' : String} (h : upperCase name = upperCase name')
    (operands : List Value) (line : Nat) :
    evaluate name operands line = evaluate name' operands line := by
  have hname : Operation.ofName? name = Operation.ofName? name' := by
    rw [← Operation.ofName?_upperCase name, h, Operation.ofName?_upperCase]
  rw [evaluate, evaluate, lookup?, lookup?, hname, h]

/-- **The case of the first two words does not matter to an arithmetic instruction.** -/
theorem execute_congr {ws ws' : List String} (h : SameInstruction ws ws') (s : State) :
    execute ws s = execute ws' s := by
  obtain ⟨hnames, hrest⟩ := h
  match ws, ws', hnames, hrest with
  | [], [], _, _ => rfl
  | [_], [_], _, _ => rfl
  | _ :: name :: rest, _ :: name' :: rest', hnames, hrest =>
    have hrest : rest = rest' := hrest
    have hname : upperCase name = upperCase name' := by simpa using (List.cons.inj hnames).2
    rw [hrest]
    cases rest' with
    | nil => rfl
    | cons destination operands =>
      rw [execute, execute, executeWith, executeWith]
      simp only [evaluate_congr hname]
  -- lists of different lengths do not have the same first two words
  | [], _ :: _, hnames, _ | _ :: _, [], hnames, _ => simp at hnames
  | [_], _ :: _ :: _, hnames, _ | _ :: _ :: _, [_], hnames, _ => simp at hnames

/-! ### Lines -/

namespace LibrarySet

variable {l : LibrarySet} {line : String} {ws : List String}

theorem executeLine_of_laidOut {first : String} {rest : List String} {owned : Owned}
    (hline : LaidOut line.toList (first :: rest))
    (howned : l.handlers.get? (upperCase first) = some owned) (s : State) :
    l.executeLine line s = owned.handler (first :: rest) s := by
  rw [executeLine, words_eq_iff.2 hline]
  dsimp only
  rw [howned]

theorem executeLine_of_blank (hline : LaidOut line.toList []) (s : State) :
    l.executeLine line s = (.ok (), s) := by
  rw [executeLine, words_eq_iff.2 hline]

end LibrarySet

theorem Routes.get?_arithmeticInstruction {accepted : List Recipe} {l : LibrarySet}
    (h : Routes accepted l) (hinstalled : ∃ r ∈ accepted, r.library = arithmeticLibrary) :
    ∃ owned, l.handlers.get? arithmeticInstruction = some owned ∧ owned.handler = execute := by
  obtain ⟨r, hr, hlibrary⟩ := hinstalled
  refine ⟨⟨r.name, execute⟩, (h.handlers _ _).2 ⟨r, hr, rfl, ?_⟩, rfl⟩
  rw [hlibrary]
  rfl

namespace Session

/-- **Neither blanks nor the case of the first two words matter.** After any calls, among
them one that has installed the arithmetic library: every line is made of words in one
way, and so by joining them. Two lines of which the first word is the arithmetic
instruction and that are made of the same words, but for the case of the first two, have
the same outcome in every state. Words that are joined by any blanks are handed to the
handler of the first one, which of the arithmetic instruction is the one that the library
gives. -/
theorem executeLine_of_same_words (host : State) (calls : List Call)
    (hinstalled : ∃ r ∈ (⟨.empty, host⟩ : Session).accepted calls,
      r.library = arithmeticLibrary) :
    let l := ((⟨.empty, host⟩ : Session).after calls).libraries
    (∀ line : String, (∃! ws, LaidOut line.toList ws) ∧
      ∃ front parts, Blank front.toList ∧ Separated parts ∧ line = joined front parts) ∧
    (∀ (line line' first : String) (rest ws : List String),
      LaidOut line.toList (first :: rest) → LaidOut line'.toList ws →
      SameInstruction (first :: rest) ws → upperCase first = arithmeticInstruction →
      ∀ s, l.executeLine line s = l.executeLine line' s) ∧
    ∀ (front : String) (parts : List (String × String)), Blank front.toList → Separated parts →
      (parts = [] → ∀ s, l.executeLine (joined front parts) s = (.ok (), s)) ∧
      ∀ first rest, parts.map Prod.fst = first :: rest →
        (∀ owned, l.handlers.get? (upperCase first) = some owned →
          ∀ s, l.executeLine (joined front parts) s = owned.handler (first :: rest) s) ∧
        (upperCase first = arithmeticInstruction →
          ∀ s, l.executeLine (joined front parts) s = execute (first :: rest) s) := by
  intro l
  have hroutes : Routes ((⟨.empty, host⟩ : Session).accepted calls) l :=
    @routes_after ⟨.empty, host⟩ [] routes_empty calls
  obtain ⟨owned, howned, hhandler⟩ := hroutes.get?_arithmeticInstruction hinstalled
  -- a line whose first word is the arithmetic instruction is carried out by `execute`
  have hexecute : ∀ {line first : String} {rest : List String},
      LaidOut line.toList (first :: rest) → upperCase first = arithmeticInstruction →
      ∀ s, l.executeLine line s = execute (first :: rest) s := by
    intro line first rest hline hfirst s
    rw [LibrarySet.executeLine_of_laidOut hline (by rw [hfirst, howned]), hhandler]
  refine ⟨fun line => ?_, ?_, fun front parts hfront hparts => ?_⟩
  · have hline : LaidOut line.toList (words line) := words_eq_iff.1 rfl
    obtain ⟨front, parts, hfront, hparts, hjoined, -⟩ := hline.exists_joined
    exact ⟨⟨words line, hline, fun ws hws => (words_eq_iff.2 hws).symm⟩,
      front, parts, hfront, hparts, (String.toList_inj.1 hjoined).symm⟩
  · intro line line' first rest ws hline hline' hsame hfirst s
    cases ws with
    | nil => cases hsame.1
    | cons first' rest' =>
      have hnames := (List.cons.inj hsame.1).1
      rw [hexecute hline hfirst, hexecute hline' (hnames ▸ hfirst), execute_congr hsame]
  · have hjoined := laidOut_joined hfront hparts
    refine ⟨fun hnone s => ?_, fun first rest hwords => ?_⟩
    · rw [hnone] at hjoined ⊢
      exact LibrarySet.executeLine_of_blank hjoined s
    · rw [hwords] at hjoined
      exact ⟨fun owned howned s => LibrarySet.executeLine_of_laidOut hjoined howned s,
        hexecute hjoined⟩

/-- A tabulator, a no-break space and an ideographic space part words like spaces, here of an
instruction in mixed case; a name that means no operation is reported in upper case. -/
theorem executeLine_of_same_words_gcd :
    let calls := [Call.install ⟨"amath", [("AMATH", execute)], some installConstants⟩]
    let s := (⟨.empty, .withRegisters ["r"]⟩ : Session).after calls
    s.libraries.executeLine "AMATH GCD r 12 18" s.state =
        s.libraries.executeLine "\tamath\u00a0Gcd  r 12\u300018 " s.state ∧
      s.libraries.executeLine "AMATH HCF r 12 18" s.state =
        s.libraries.executeLine " Amath hcf r 12\u202f18" s.state ∧
      (s.libraries.executeLine "AMATH GCD r 12 18" s.state).2.registers.get? "r" =
        some (.ofInt 6) := by
  intro calls s
  have haccepted : (⟨.empty, .withRegisters ["r"]⟩ : Session).accepted calls =
      [⟨"amath", [("AMATH", execute)], some installConstants⟩] := by
    rw [accepted, accepted, newcomer, if_pos (by decide +kernel), List.append_nil]
  obtain ⟨-, hsame, -⟩ := executeLine_of_same_words (.withRegisters ["r"]) calls
    ⟨_, haccepted ▸ List.mem_singleton_self _, rfl⟩
  have hwords : ∀ line ws, words line = ws → LaidOut line.toList ws :=
    fun line ws => words_eq_iff.1
  refine ⟨?_, ?_, by decide +kernel⟩
  · exact hsame _ _ "AMATH" ["GCD", "r", "12", "18"] ["amath", "Gcd", "r", "12", "18"]
      (hwords _ _ (by decide +kernel)) (hwords _ _ (by decide +kernel))
      ⟨by decide +kernel, rfl⟩ (by decide +kernel) s.state
  · exact hsame _ _ "AMATH" ["HCF", "r", "12", "18"] ["Amath", "hcf", "r", "12", "18"]
      (hwords _ _ (by decide +kernel)) (hwords _ _ (by decide +kernel))
      ⟨by decide +kernel, rfl⟩ (by decide +kernel) s.state

end Session

end RegisterMachine
