/-
# Values that are written and read

A value whose numbers and strings are well formed (`Json.WellFormed`) is read
back from its text. The text is cut into the tokens of the value
(`tokens?_render`), whatever follows a value as long as it does not go on with a
number, and the tokens are read by descent along the value. Each token takes one
unit of the fuel for cutting and two of the fuel for reading.

Key definitions: `Json.WellFormed`, `Json.tokens`.
Key theorems: `tokens?_render`, `readValue?_tokens`, `read?_render`.
-/
import RegisterMachine.Json.Reader

namespace RegisterMachine.Json

/-! ### Well-formed values and their tokens -/

mutual

/-- Every number of the value is the text of one, and every string is a body
that ends before the mark behind it and not sooner. -/
def WellFormed : Json → Prop
  | .null => True
  | .bool _ => True
  | .number text => isNumber text = true ∧ ∀ c ∈ text, isNumberChar c = true
  | .string body => ∀ rest, scanBody? (body ++ '"' :: rest) = some (body, rest)
  | .array items => WellFormedItems items
  | .object members => WellFormedMembers members

/-- The items are well formed. -/
def WellFormedItems : List Json → Prop
  | [] => True
  | item :: items => item.WellFormed ∧ WellFormedItems items

/-- The names and values of the members are well formed. -/
def WellFormedMembers : List (List Char × Json) → Prop
  | [] => True
  | (key, value) :: members =>
    (∀ rest, scanBody? (key ++ '"' :: rest) = some (key, rest)) ∧ value.WellFormed ∧
      WellFormedMembers members

end

theorem wellFormedItems_iff (items : List Json) :
    WellFormedItems items ↔ ∀ item ∈ items, item.WellFormed := by
  induction items with
  | nil => simp [WellFormedItems]
  | cons item items ih => simp [WellFormedItems, ih]

theorem wellFormedMembers_iff (members : List (List Char × Json)) :
    WellFormedMembers members ↔ ∀ member ∈ members,
      (∀ rest, scanBody? (member.1 ++ '"' :: rest) = some (member.1, rest)) ∧
        member.2.WellFormed := by
  induction members with
  | nil => simp [WellFormedMembers]
  | cons member members ih => simp [WellFormedMembers, ih, and_assoc]

mutual

/-- The tokens of a value. -/
def tokens : Json → List Token
  | .null => [.null]
  | .bool b => [.bool b]
  | .number text => [.number text]
  | .string body => [.string body]
  | .array [] => [.openBracket, .closeBracket]
  | .array (item :: items) => .openBracket :: (tokens item ++ itemTokens items)
  | .object [] => [.openBrace, .closeBrace]
  | .object ((key, value) :: members) =>
    .openBrace :: .string key :: .colon :: (tokens value ++ memberTokens members)

/-- The tokens of the further items of an array, and of its end. -/
def itemTokens : List Json → List Token
  | [] => [.closeBracket]
  | item :: items => .comma :: (tokens item ++ itemTokens items)

/-- The tokens of the further members of an object, and of its end. -/
def memberTokens : List (List Char × Json) → List Token
  | [] => [.closeBrace]
  | (key, value) :: members =>
    .comma :: .string key :: .colon :: (tokens value ++ memberTokens members)

end

/-! ### Tokens of a text -/

/-- No number goes on with this text. -/
def EndsNumber (rest : List Char) : Prop := ∀ c ∈ rest.head?, isNumberChar c = false

theorem token?_number {text rest : List Char} (h : isNumber text = true)
    (hchars : ∀ c ∈ text, isNumberChar c = true) (hrest : EndsNumber rest) :
    token? (text ++ rest) = some (.number text, rest) := by
  have htake : (text ++ rest).takeWhile isNumberChar = text := by
    rw [List.takeWhile_append_of_pos hchars]
    cases rest with
    | nil => simp
    | cons c cs => simp [hrest c rfl]
  have hdrop : (text ++ rest).dropWhile isNumberChar = rest := by
    rw [List.dropWhile_append_of_pos hchars]
    cases rest with
    | nil => simp
    | cons c cs => simp [hrest c rfl]
  cases text with
  | nil => simp [isNumber, splitFraction] at h
  | cons c cs =>
    have hc := hchars c List.mem_cons_self
    rw [List.cons_append] at htake hdrop ⊢
    unfold token?
    split <;> first
      | (rename_i heq; injection heq with heq; subst heq; exact absurd hc (by decide))
      | rw [htake, if_pos h, hdrop]

/-- A token at the start of a text is cut off it. -/
theorem tokensFrom?_succ (fuel : Nat) {c : Char} {cs rest : List Char} {token : Token}
    (hspace : isSpace c = false) (h : token? (c :: cs) = some (token, rest)) :
    tokensFrom? (fuel + 1) (c :: cs) = (tokensFrom? fuel rest).map (token :: ·) := by
  have hdrop : (c :: cs).dropWhile isSpace = c :: cs := by simp [hspace]
  rw [tokensFrom?, hdrop]
  dsimp only
  rw [h]


theorem token?_string {body : List Char}
    (h : ∀ rest, scanBody? (body ++ '"' :: rest) = some (body, rest)) (rest : List Char) :
    token? ('"' :: (body ++ '"' :: rest)) = some (.string body, rest) := by
  simp [token?, h rest]

theorem tokensFrom?_mark (fuel : Nat) {c : Char} {t : Token} (hspace : isSpace c = false)
    (h : ∀ rest, token? (c :: rest) = some (t, rest)) (rest : List Char) :
    tokensFrom? (fuel + 1) (c :: rest) = (tokensFrom? fuel rest).map (t :: ·) :=
  tokensFrom?_succ fuel hspace (h rest)

theorem tokensFrom?_key (fuel : Nat) {key : List Char}
    (h : ∀ rest, scanBody? (key ++ '"' :: rest) = some (key, rest)) (rest : List Char) :
    tokensFrom? (fuel + 2) ('"' :: (key ++ '"' :: ':' :: rest)) =
      (tokensFrom? fuel rest).map fun tokens => .string key :: .colon :: tokens := by
  rw [tokensFrom?_succ (fuel + 1) (by decide) (token?_string h (':' :: rest)),
    tokensFrom?_mark fuel (c := ':') (t := .colon) (by decide) (fun _ => rfl), Option.map_map]
  rfl

theorem endsNumber_renderItems (items : List Json) (rest : List Char) :
    EndsNumber (renderItems items ++ rest) := by
  cases items <;> simp [EndsNumber, renderItems, isNumberChar]

theorem endsNumber_renderMembers (members : List (List Char × Json)) (rest : List Char) :
    EndsNumber (renderMembers members ++ rest) := by
  cases members <;> simp [EndsNumber, renderMembers, isNumberChar]

theorem isSpace_of_isNumberChar {c : Char} (h : isNumberChar c = true) : isSpace c = false := by
  rw [← Bool.not_eq_true]
  intro hspace
  simp only [isSpace, Bool.or_eq_true, beq_iff_eq] at hspace
  rcases hspace with ((rfl | rfl) | rfl) | rfl <;> exact absurd h (by decide)

mutual

/-- The text of a value is cut into its tokens, one for each unit of fuel. -/
theorem tokensFrom?_render (fuel : Nat) (rest : List Char) (hrest : EndsNumber rest) :
    ∀ j : Json, j.WellFormed → tokensFrom? (fuel + (tokens j).length) (render j ++ rest) =
      (tokensFrom? fuel rest).map (tokens j ++ ·)
  | .null, _ => tokensFrom?_succ fuel (by decide) rfl
  | .bool true, _ => tokensFrom?_succ fuel (by decide) rfl
  | .bool false, _ => tokensFrom?_succ fuel (by decide) rfl
  | .number text, h => by
    rw [WellFormed] at h
    have htoken := token?_number h.1 h.2 hrest
    cases text with
    | nil => simp [isNumber, splitFraction] at h
    | cons c cs =>
      have hc := h.2 c List.mem_cons_self
      exact tokensFrom?_succ fuel (isSpace_of_isNumberChar hc) htoken
  | .string body, h => by
    rw [WellFormed] at h
    have hstring := tokensFrom?_succ fuel (by decide) (token?_string h rest)
    simpa [render, tokens] using hstring
  | .array [], _ => by
    have hopen := tokensFrom?_mark (fuel + 1) (c := '[') (t := .openBracket) (by decide)
      (fun _ => rfl) (']' :: rest)
    rw [tokensFrom?_mark fuel (c := ']') (t := .closeBracket) (by decide) (fun _ => rfl),
      Option.map_map] at hopen
    exact hopen
  | .array (item :: items), h => by
    rw [WellFormed, WellFormedItems] at h
    have hitem := tokensFrom?_render (fuel + (itemTokens items).length)
      (renderItems items ++ rest) (endsNumber_renderItems items rest) item h.1
    have hitems := tokensFrom?_renderItems fuel rest items h.2
    have hfuel : fuel + (tokens (.array (item :: items))).length =
        fuel + (itemTokens items).length + (tokens item).length + 1 := by
      rw [tokens, List.length_cons, List.length_append]; omega
    rw [hfuel, render, List.cons_append, List.cons_append, List.append_assoc,
      tokensFrom?_mark _ (c := '[') (t := .openBracket) (by decide) (fun _ => rfl), hitem, hitems]
    simp [Option.map_map, Function.comp_def, tokens]
  | .object [], _ => by
    have hopen := tokensFrom?_mark (fuel + 1) (c := '\x7b') (t := .openBrace) (by decide)
      (fun _ => rfl) ('\x7d' :: rest)
    rw [tokensFrom?_mark fuel (c := '\x7d') (t := .closeBrace) (by decide) (fun _ => rfl),
      Option.map_map] at hopen
    exact hopen
  | .object ((key, value) :: members), h => by
    rw [WellFormed, WellFormedMembers] at h
    have hvalue := tokensFrom?_render (fuel + (memberTokens members).length)
      (renderMembers members ++ rest) (endsNumber_renderMembers members rest) value h.2.1
    have hmembers := tokensFrom?_renderMembers fuel rest members h.2.2
    have hfuel : fuel + (tokens (.object ((key, value) :: members))).length =
        fuel + (memberTokens members).length + (tokens value).length + 2 + 1 := by
      simp only [tokens, List.length_cons, List.length_append]; omega
    have htext : render (.object ((key, value) :: members)) ++ rest =
        '\x7b' :: '"' :: (key ++ '"' :: ':' ::
          (render value ++ (renderMembers members ++ rest))) := by
      simp [render]
    rw [hfuel, htext,
      tokensFrom?_mark _ (c := '\x7b') (t := .openBrace) (by decide) (fun _ => rfl),
      tokensFrom?_key _ h.1, hvalue, hmembers]
    simp [Option.map_map, Function.comp_def, tokens]

theorem tokensFrom?_renderItems (fuel : Nat) (rest : List Char) :
    ∀ items : List Json, WellFormedItems items →
      tokensFrom? (fuel + (itemTokens items).length) (renderItems items ++ rest) =
        (tokensFrom? fuel rest).map (itemTokens items ++ ·)
  | [], _ => tokensFrom?_succ fuel (by decide) rfl
  | item :: items, h => by
    rw [WellFormedItems] at h
    have hitem := tokensFrom?_render (fuel + (itemTokens items).length)
      (renderItems items ++ rest) (endsNumber_renderItems items rest) item h.1
    have hitems := tokensFrom?_renderItems fuel rest items h.2
    have hfuel : fuel + (itemTokens (item :: items)).length =
        fuel + (itemTokens items).length + (tokens item).length + 1 := by
      rw [itemTokens, List.length_cons, List.length_append]; omega
    rw [hfuel, renderItems, List.cons_append, List.cons_append, List.append_assoc,
      tokensFrom?_mark _ (c := ',') (t := .comma) (by decide) (fun _ => rfl), hitem, hitems]
    simp [Option.map_map, Function.comp_def, itemTokens]

theorem tokensFrom?_renderMembers (fuel : Nat) (rest : List Char) :
    ∀ members : List (List Char × Json), WellFormedMembers members →
      tokensFrom? (fuel + (memberTokens members).length) (renderMembers members ++ rest) =
        (tokensFrom? fuel rest).map (memberTokens members ++ ·)
  | [], _ => tokensFrom?_succ fuel (by decide) rfl
  | (key, value) :: members, h => by
    rw [WellFormedMembers] at h
    have hvalue := tokensFrom?_render (fuel + (memberTokens members).length)
      (renderMembers members ++ rest) (endsNumber_renderMembers members rest) value h.2.1
    have hmembers := tokensFrom?_renderMembers fuel rest members h.2.2
    have hfuel : fuel + (memberTokens ((key, value) :: members)).length =
        fuel + (memberTokens members).length + (tokens value).length + 2 + 1 := by
      simp only [memberTokens, List.length_cons, List.length_append]; omega
    have htext : renderMembers ((key, value) :: members) ++ rest =
        ',' :: '"' :: (key ++ '"' :: ':' ::
          (render value ++ (renderMembers members ++ rest))) := by
      simp [renderMembers]
    rw [hfuel, htext,
      tokensFrom?_mark _ (c := ',') (t := .comma) (by decide) (fun _ => rfl),
      tokensFrom?_key _ h.1, hvalue, hmembers]
    simp [Option.map_map, Function.comp_def, memberTokens]

end

mutual

/-- Every token of a value has a character in its text at least. -/
theorem length_tokens_le : ∀ j : Json, j.WellFormed → (tokens j).length ≤ (render j).length
  | .null, _ => by simp [tokens, render]
  | .bool true, _ => by simp [tokens, render]
  | .bool false, _ => by simp [tokens, render]
  | .number text, h => by
    rw [WellFormed] at h
    cases text with
    | nil => simp [isNumber, splitFraction] at h
    | cons c cs => simp [tokens, render]
  | .string body, _ => by simp [tokens, render]
  | .array [], _ => by simp [tokens, render]
  | .array (item :: items), h => by
    rw [WellFormed, WellFormedItems] at h
    have hitem := length_tokens_le item h.1
    have hitems := length_itemTokens_le items h.2
    simp only [tokens, render, List.length_cons, List.length_append]
    omega
  | .object [], _ => by simp [tokens, render]
  | .object ((key, value) :: members), h => by
    rw [WellFormed, WellFormedMembers] at h
    have hvalue := length_tokens_le value h.2.1
    have hmembers := length_memberTokens_le members h.2.2
    simp only [tokens, render, List.length_cons, List.length_append]
    omega

theorem length_itemTokens_le : ∀ items : List Json, WellFormedItems items →
    (itemTokens items).length ≤ (renderItems items).length
  | [], _ => by simp [itemTokens, renderItems]
  | item :: items, h => by
    rw [WellFormedItems] at h
    have hitem := length_tokens_le item h.1
    have hitems := length_itemTokens_le items h.2
    simp only [itemTokens, renderItems, List.length_cons, List.length_append]
    omega

theorem length_memberTokens_le : ∀ members : List (List Char × Json), WellFormedMembers members →
    (memberTokens members).length ≤ (renderMembers members).length
  | [], _ => by simp [memberTokens, renderMembers]
  | (key, value) :: members, h => by
    rw [WellFormedMembers] at h
    have hvalue := length_tokens_le value h.2.1
    have hmembers := length_memberTokens_le members h.2.2
    simp only [memberTokens, renderMembers, List.length_cons, List.length_append]
    omega

end

/-- **The text of a well-formed value has its tokens.** -/
theorem tokens?_render {j : Json} (h : j.WellFormed) : tokens? (render j) = some (tokens j) := by
  have hlen := length_tokens_le j h
  have hfuel : (render j).length = (render j).length - (tokens j).length + (tokens j).length := by
    omega
  have hend : EndsNumber [] := by simp [EndsNumber]
  have hread := tokensFrom?_render ((render j).length - (tokens j).length) [] hend j h
  rw [List.append_nil, ← hfuel] at hread
  rw [tokens?, hread]
  cases (render j).length - (tokens j).length <;> simp [tokensFrom?]

/-! ### Values of tokens -/

theorem tokens_ne_close (j : Json) :
    ∃ t ts, tokens j = t :: ts ∧ t ≠ .closeBracket ∧ t ≠ .closeBrace := by
  match j with
  | .null | .bool _ | .number _ | .string _ => simp [tokens]
  | .array [] | .array (_ :: _) | .object [] | .object ((_, _) :: _) => simp [tokens]

mutual

/-- The tokens of a value are read as the value, with twice as much fuel as there
are tokens. -/
theorem readValue?_tokens : ∀ (j : Json) (fuel : Nat) (rest : List Token),
    2 * (tokens j).length ≤ fuel → readValue? fuel (tokens j ++ rest) = some (j, rest)
  | j, 0, rest, h => by
    obtain ⟨t, ts, hts, -⟩ := tokens_ne_close j
    rw [hts, List.length_cons] at h
    omega
  | .null, fuel + 1, rest, _ => rfl
  | .bool b, fuel + 1, rest, _ => rfl
  | .number text, fuel + 1, rest, _ => rfl
  | .string body, fuel + 1, rest, _ => rfl
  | .array [], fuel + 1, rest, _ => rfl
  | .array (item :: items), fuel + 1, rest, h => by
    obtain ⟨t, ts, hts, hbracket, -⟩ := tokens_ne_close item
    have hlen : 2 * ((tokens item).length + (itemTokens items).length) ≤ fuel := by
      simp only [tokens, List.length_cons, List.length_append] at h; omega
    have hitems := readItems?_tokens items item (readValue?_tokens item) fuel rest hlen
    rw [hts, List.cons_append] at hitems
    rw [tokens, List.cons_append, hts, List.append_assoc, List.cons_append, readValue?, hitems]
    · rfl
    · intro _ heq
      exact hbracket (List.cons.inj heq).1
  | .object [], fuel + 1, rest, _ => rfl
  | .object ((key, value) :: members), fuel + 1, rest, h => by
    have hlen : 2 * ((tokens value).length + (memberTokens members).length) ≤ fuel := by
      simp only [tokens, List.length_cons, List.length_append] at h; omega
    have hmembers :=
      readMembers?_tokens members key value (readValue?_tokens value) fuel rest hlen
    rw [tokens, List.cons_append, List.cons_append, List.cons_append, List.append_assoc,
      readValue?, hmembers]
    · rfl
    · intro _ heq
      cases heq

theorem readItems?_tokens : ∀ (items : List Json) (item : Json),
    (∀ (fuel : Nat) (rest : List Token), 2 * (tokens item).length ≤ fuel →
      readValue? fuel (tokens item ++ rest) = some (item, rest)) →
    ∀ (fuel : Nat) (rest : List Token),
      2 * ((tokens item).length + (itemTokens items).length) ≤ fuel →
        readItems? fuel (tokens item ++ (itemTokens items ++ rest)) = some (item :: items, rest)
  | _, item, _, 0, rest, h => by
    obtain ⟨t, ts, hts, -⟩ := tokens_ne_close item
    rw [hts, List.length_cons] at h
    omega
  | [], item, hitem, fuel + 1, rest, h => by
    rw [itemTokens, List.length_singleton] at h
    rw [itemTokens, readItems?, hitem fuel _ (by omega)]
    rfl
  | next :: items, item, hitem, fuel + 1, rest, h => by
    simp only [itemTokens, List.length_cons, List.length_append] at h
    have hnext := readItems?_tokens items next (readValue?_tokens next) fuel rest (by omega)
    rw [itemTokens, List.cons_append, List.append_assoc, readItems?, hitem fuel _ (by omega)]
    dsimp only
    rw [hnext]
    rfl

theorem readMembers?_tokens : ∀ (members : List (List Char × Json)) (key : List Char)
    (value : Json),
    (∀ (fuel : Nat) (rest : List Token), 2 * (tokens value).length ≤ fuel →
      readValue? fuel (tokens value ++ rest) = some (value, rest)) →
    ∀ (fuel : Nat) (rest : List Token),
      2 * ((tokens value).length + (memberTokens members).length) ≤ fuel →
        readMembers? fuel (.string key :: .colon :: (tokens value ++
          (memberTokens members ++ rest))) = some ((key, value) :: members, rest)
  | _, key, value, _, 0, rest, h => by
    obtain ⟨t, ts, hts, -⟩ := tokens_ne_close value
    rw [hts, List.length_cons] at h
    omega
  | [], key, value, hvalue, fuel + 1, rest, h => by
    rw [memberTokens, List.length_singleton] at h
    rw [memberTokens, readMembers?, hvalue fuel _ (by omega)]
    rfl
  | (next, value') :: members, key, value, hvalue, fuel + 1, rest, h => by
    simp only [memberTokens, List.length_cons, List.length_append] at h
    have hnext := readMembers?_tokens members next value' (readValue?_tokens value') fuel rest
      (by omega)
    simp only [memberTokens, List.cons_append, List.append_assoc]
    rw [readMembers?, hvalue fuel _ (by omega)]
    dsimp only
    rw [hnext]
    rfl

end

/-- **A well-formed value is read back from its text.** -/
theorem read?_render {j : Json} (h : j.WellFormed) :
    read? (String.ofList (render j)) = some j := by
  have hvalue := readValue?_tokens j (2 * (tokens j).length) [] (Nat.le_refl _)
  rw [List.append_nil] at hvalue
  rw [read?, String.toList_ofList, tokens?_render h, Option.bind_some, hvalue]

end RegisterMachine.Json
