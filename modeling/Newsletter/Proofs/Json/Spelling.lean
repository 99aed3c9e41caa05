/-
How JSON texts spell trees: tokens in the order of the tree, with any blanks between them. Main
statements: a text that spells a tree is read as that tree, and both the compact and the indented
text of a tree spell it; so every tree is read back from either.
-/
import Newsletter.Proofs.Json.Tokens

namespace Newsletter.Json

namespace Tree

/-! ## Texts of trees -/

/-- Characters between two tokens. -/
def Blanks (cs : List Char) : Prop := ∀ c ∈ cs, isBlank c = true

mutual

/-- The characters of a value, without blanks around it. -/
inductive Spells : Tree → List Char → Prop
  | null : Spells .null "null".toList
  | bool (b : Bool) : Spells (.bool b) (boolChars b)
  | number (n : Numeral) : Spells (.number n) n.chars
  | string (s : Option String) : Spells (.string s) (quoteChars s)
  | noItems : Spells (.array []) ['[', ']']
  | items {items : List Tree} {cs : List Char} (h : SpellsItems items cs) :
    Spells (.array items) ('[' :: cs)
  | noMembers : Spells (.object []) ['{', '}']
  | members {members : List (Option String × Tree)} {cs : List Char}
    (h : SpellsMembers members cs) : Spells (.object members) ('{' :: cs)

/-- The characters of items up to the closing bracket. -/
inductive SpellsItems : List Tree → List Char → Prop
  | last {item : Tree} {front cs back : List Char} (hfront : Blanks front) (h : Spells item cs)
    (hback : Blanks back) : SpellsItems [item] (front ++ (cs ++ (back ++ [']'])))
  | more {item : Tree} {items : List Tree} {front cs ds : List Char} (hfront : Blanks front)
    (h : Spells item cs) (hmore : SpellsItems items ds) :
    SpellsItems (item :: items) (front ++ (cs ++ ',' :: ds))

/-- The characters of members up to the closing brace. -/
inductive SpellsMembers : List (Option String × Tree) → List Char → Prop
  | last {key : Option String} {value : Tree} {front gap cs back : List Char}
    (hfront : Blanks front) (hgap : Blanks gap) (h : Spells value cs) (hback : Blanks back) :
    SpellsMembers [(key, value)] (front ++ (quoteChars key ++ ':' :: (gap ++ (cs ++ (back ++ ['}'])))))
  | more {key : Option String} {value : Tree} {members : List (Option String × Tree)}
    {front gap cs ds : List Char} (hfront : Blanks front) (hgap : Blanks gap) (h : Spells value cs)
    (hmore : SpellsMembers members ds) :
    SpellsMembers ((key, value) :: members)
      (front ++ (quoteChars key ++ ':' :: (gap ++ (cs ++ ',' :: ds))))

end

/-! ## Blanks -/

theorem blanks_nil : Blanks [] := nofun

theorem blanks_newline (depth : Nat) : Blanks (newline depth) := by
  intro c hc
  rcases List.mem_cons.1 hc with rfl | hc
  · rfl
  · rw [List.eq_of_mem_replicate hc]
    rfl

theorem skipBlanks_append {front : List Char} (h : Blanks front) (cs : List Char) :
    skipBlanks (front ++ cs) = skipBlanks cs := by
  unfold skipBlanks
  rw [List.dropWhile_append_of_pos h]

theorem skipBlanks_cons {c : Char} (h : isBlank c = false) (cs : List Char) :
    skipBlanks (c :: cs) = c :: cs := by
  unfold skipBlanks
  rw [List.dropWhile_cons_of_neg (by simp [h])]

theorem ends_append {front : List Char} (h : Blanks front) {cs : List Char}
    (hcs : Numeral.Ends cs) : Numeral.Ends (front ++ cs) := by
  cases front with
  | nil => exact hcs
  | cons c front =>
    intro d hd
    rw [List.cons_append, List.head?_cons, Option.mem_some_iff] at hd
    subst hd
    have hblank := h _ List.mem_cons_self
    unfold isBlank at hblank
    simp only [Bool.or_eq_true, decide_eq_true_eq] at hblank
    rcases hblank with ((rfl | rfl) | rfl) | rfl <;> decide

/-- Blanks in front of a value are passed over. -/
theorem readValue?_append (fuel : Nat) {front : List Char} (h : Blanks front) (cs : List Char) :
    readValue? fuel (front ++ cs) = readValue? fuel cs := by
  cases fuel with
  | zero => rfl
  | succ fuel => unfold readValue?; rw [skipBlanks_append h]

theorem readItems?_append (fuel : Nat) {front : List Char} (h : Blanks front) (cs : List Char) :
    readItems? fuel (front ++ cs) = readItems? fuel cs := by
  cases fuel with
  | zero => rfl
  | succ fuel => unfold readItems?; rw [readValue?_append fuel h]

theorem readMembers?_append (fuel : Nat) {front : List Char} (h : Blanks front) (cs : List Char) :
    readMembers? fuel (front ++ cs) = readMembers? fuel cs := by
  cases fuel with
  | zero => rfl
  | succ fuel => unfold readMembers?; rw [skipBlanks_append h]

/-! ## Reading -/

/-- A value begins with its own first character, which closes nothing. -/
theorem Spells.head {tree : Tree} {cs : List Char} (h : Spells tree cs) :
    ∃ c ds, cs = c :: ds ∧ isBlank c = false ∧ c ≠ ']' := by
  cases h with
  | null => exact ⟨'n', _, rfl, rfl, by decide⟩
  | bool b =>
    cases b with
    | false => exact ⟨'f', _, rfl, rfl, by decide⟩
    | true => exact ⟨'t', _, rfl, rfl, by decide⟩
  | number n =>
    obtain ⟨c, ds, hchars, hhead⟩ := n.head_chars
    have hdigit : ∀ d : Digit, isBlank d.char = false ∧ d.char ≠ ']' := by decide
    rcases hhead with rfl | ⟨d, rfl⟩
    · exact ⟨_, ds, hchars, rfl, by decide⟩
    · exact ⟨_, ds, hchars, hdigit d⟩
  | string s =>
    obtain ⟨ds, hquote, -⟩ := readQuoted?_quoteChars s []
    exact ⟨_, ds, hquote, rfl, by decide⟩
  | noItems => exact ⟨_, _, rfl, rfl, by decide⟩
  | items => exact ⟨_, _, rfl, rfl, by decide⟩
  | noMembers => exact ⟨_, _, rfl, rfl, by decide⟩
  | members => exact ⟨_, _, rfl, rfl, by decide⟩

theorem readValue?_number (fuel : Nat) (n : Numeral) {rest : List Char} (h : Numeral.Ends rest) :
    readValue? (fuel + 1) (n.chars ++ rest) = some (.number n, rest) := by
  have hread := n.read?_chars h
  obtain ⟨c, cs, hchars, hhead⟩ := n.head_chars
  have hdigit : ∀ d : Digit, isBlank d.char = false ∧ d.char ∉ ['n', 't', 'f', '"', '[', '{'] := by
    decide
  have hc : isBlank c = false ∧ c ∉ ['n', 't', 'f', '"', '[', '{'] := by
    rcases hhead with rfl | ⟨d, rfl⟩
    · decide
    · exact hdigit d
  simp only [List.mem_cons, List.not_mem_nil, or_false, not_or] at hc
  rw [hchars, List.cons_append] at hread ⊢
  unfold readValue?
  rw [skipBlanks_cons hc.1]
  split
  · simp_all
  · simp_all
  · simp_all
  · simp_all
  · simp_all
  · simp_all
  · rw [hread]; rfl

theorem readValue?_string (fuel : Nat) (s : Option String) (rest : List Char) :
    readValue? (fuel + 1) (quoteChars s ++ rest) = some (.string s, rest) := by
  obtain ⟨cs, hquote, hread⟩ := readQuoted?_quoteChars s rest
  rw [hquote, List.cons_append]
  unfold readValue?
  rw [skipBlanks_cons rfl]
  show (readQuoted? (cs ++ rest)).map _ = _
  rw [hread]
  rfl

theorem readValue?_array (fuel : Nat) (cs : List Char) : readValue? (fuel + 1) ('[' :: cs) =
    match skipBlanks cs with
    | ']' :: rest => some (array [], rest)
    | rest => (readItems? fuel rest).map fun (items, rest) => (array items, rest) := by
  conv => lhs; unfold readValue?
  rw [skipBlanks_cons rfl]
  rfl

theorem readValue?_object (fuel : Nat) (cs : List Char) : readValue? (fuel + 1) ('{' :: cs) =
    match skipBlanks cs with
    | '\x7d' :: rest => some (object [], rest)
    | rest => (readMembers? fuel rest).map fun (members, rest) => (object members, rest) := by
  conv => lhs; unfold readValue?
  rw [skipBlanks_cons rfl]
  rfl

theorem readValue?_bracket (fuel : Nat) {front cs : List Char} (hfront : Blanks front) {c : Char}
    (hblank : isBlank c = false) (hc : c ≠ ']') :
    readValue? (fuel + 1) ('[' :: (front ++ c :: cs)) =
      (readItems? fuel (front ++ c :: cs)).map fun (items, rest) => (.array items, rest) := by
  rw [readItems?_append fuel hfront, readValue?_array, skipBlanks_append hfront,
    skipBlanks_cons hblank]
  split
  · rename_i heq; exact absurd (List.cons.inj heq).1 hc
  · rfl

theorem readValue?_brace (fuel : Nat) {front cs : List Char} (hfront : Blanks front) :
    readValue? (fuel + 1) ('{' :: (front ++ '"' :: cs)) =
      (readMembers? fuel (front ++ '"' :: cs)).map fun (members, rest) =>
        (.object members, rest) := by
  rw [readMembers?_append fuel hfront, readValue?_object, skipBlanks_append hfront,
    skipBlanks_cons rfl]
  rfl

theorem SpellsItems.head {items : List Tree} {cs : List Char} (h : SpellsItems items cs) :
    ∃ front c ds, cs = front ++ c :: ds ∧ Blanks front ∧ isBlank c = false ∧ c ≠ ']' := by
  cases h with
  | last hfront h hback =>
    obtain ⟨c, ds, rfl, hc⟩ := h.head
    exact ⟨_, c, _, rfl, hfront, hc⟩
  | more hfront h hmore =>
    obtain ⟨c, ds, rfl, hc⟩ := h.head
    exact ⟨_, c, _, rfl, hfront, hc⟩

theorem SpellsMembers.head {members : List (Option String × Tree)} {cs : List Char}
    (h : SpellsMembers members cs) : ∃ front ds, cs = front ++ '"' :: ds ∧ Blanks front := by
  cases h with
  | @last key _ _ _ _ _ hfront =>
    obtain ⟨ds, hquote, -⟩ := readQuoted?_quoteChars key []
    rw [hquote]
    exact ⟨_, _, rfl, hfront⟩
  | @more key _ _ _ _ _ _ hfront =>
    obtain ⟨ds, hquote, -⟩ := readQuoted?_quoteChars key []
    rw [hquote]
    exact ⟨_, _, rfl, hfront⟩

theorem readMembers?_key (fuel : Nat) (key : Option String) (rest : List Char) :
    readMembers? (fuel + 1) (quoteChars key ++ ':' :: rest) =
      match readValue? fuel rest with
      | none => none
      | some (value, rest) =>
        match skipBlanks rest with
        | '\x7d' :: rest => some ([(key, value)], rest)
        | ',' :: rest =>
          (readMembers? fuel rest).map fun (members, rest) => ((key, value) :: members, rest)
        | _ => none := by
  obtain ⟨cs, hquote, hread⟩ := readQuoted?_quoteChars key (':' :: rest)
  rw [hquote, List.cons_append]
  conv => lhs; unfold readMembers?
  rw [skipBlanks_cons rfl]
  split
  · rename_i heq
    cases heq
    rw [hread]
    rfl
  · rename_i hother
    exact absurd rfl (hother _)

mutual

/-- A value is read from its characters with twice as much fuel as there are characters. -/
theorem Spells.read {tree : Tree} {cs : List Char} : Spells tree cs → ∀ (fuel : Nat)
    (rest : List Char), Numeral.Ends rest → 2 * cs.length ≤ fuel →
      readValue? fuel (cs ++ rest) = some (tree, rest)
  | h, 0, rest, hends, hfuel => by
    obtain ⟨c, ds, rfl, -⟩ := h.head
    simp at hfuel
  | .null, fuel + 1, rest, _, _ => rfl
  | .bool true, fuel + 1, rest, _, _ => rfl
  | .bool false, fuel + 1, rest, _, _ => rfl
  | .number n, fuel + 1, rest, hends, _ => readValue?_number fuel n hends
  | .string s, fuel + 1, rest, _, _ => readValue?_string fuel s rest
  | .noItems, fuel + 1, rest, _, _ => rfl
  | .noMembers, fuel + 1, rest, _, _ => rfl
  | .items h, fuel + 1, rest, _, hfuel => by
    have hread := h.read fuel rest (by rw [List.length_cons] at hfuel; omega)
    obtain ⟨front, c, ds, rfl, hfront, hblank, hc⟩ := h.head
    rw [List.append_assoc, List.cons_append] at hread
    rw [List.cons_append, List.append_assoc, List.cons_append,
      readValue?_bracket fuel hfront hblank hc, hread]
    rfl
  | .members h, fuel + 1, rest, _, hfuel => by
    have hread := h.read fuel rest (by rw [List.length_cons] at hfuel; omega)
    obtain ⟨front, ds, rfl, hfront⟩ := h.head
    rw [List.append_assoc, List.cons_append] at hread
    rw [List.cons_append, List.append_assoc, List.cons_append, readValue?_brace fuel hfront, hread]
    rfl

theorem SpellsItems.read {items : List Tree} {cs : List Char} : SpellsItems items cs →
    ∀ (fuel : Nat) (rest : List Char), 2 * cs.length ≤ fuel →
      readItems? fuel (cs ++ rest) = some (items, rest)
  | h, 0, rest, hfuel => by
    obtain ⟨front, c, ds, rfl, -⟩ := h.head
    simp at hfuel
  | @SpellsItems.last item front cs back hfront h hback, fuel + 1, rest, hfuel => by
    simp only [List.length_append, List.length_singleton] at hfuel
    have hends : Numeral.Ends (back ++ ']' :: rest) :=
      ends_append hback (by intro c hc; cases hc; decide)
    have hread := h.read fuel (back ++ ']' :: rest) hends (by omega)
    simp only [List.append_assoc, List.singleton_append]
    unfold readItems?
    rw [readValue?_append fuel hfront, hread]
    dsimp only
    rw [skipBlanks_append hback, skipBlanks_cons rfl]
    rfl
  | @SpellsItems.more item items front cs ds hfront h hmore, fuel + 1, rest, hfuel => by
    simp only [List.length_append, List.length_cons] at hfuel
    have hends : Numeral.Ends (',' :: (ds ++ rest)) := by intro c hc; cases hc; decide
    have hread := h.read fuel (',' :: (ds ++ rest)) hends (by omega)
    simp only [List.append_assoc, List.cons_append]
    unfold readItems?
    rw [readValue?_append fuel hfront, hread]
    dsimp only
    rw [skipBlanks_cons rfl]
    show (readItems? fuel (ds ++ rest)).map _ = _
    rw [hmore.read fuel rest (by omega)]
    rfl

theorem SpellsMembers.read {members : List (Option String × Tree)} {cs : List Char} :
    SpellsMembers members cs → ∀ (fuel : Nat) (rest : List Char), 2 * cs.length ≤ fuel →
      readMembers? fuel (cs ++ rest) = some (members, rest)
  | h, 0, rest, hfuel => by
    obtain ⟨front, ds, rfl, -⟩ := h.head
    simp at hfuel
  | @SpellsMembers.last key value front gap cs back hfront hgap h hback, fuel + 1, rest, hfuel => by
    simp only [List.length_append, List.length_cons] at hfuel
    have hends : Numeral.Ends (back ++ '\x7d' :: rest) :=
      ends_append hback (by intro c hc; cases hc; decide)
    have hread := h.read fuel (back ++ '\x7d' :: rest) hends (by omega)
    simp only [List.append_assoc, List.cons_append, List.nil_append]
    rw [readMembers?_append _ hfront, readMembers?_key, readValue?_append fuel hgap, hread]
    dsimp only
    rw [skipBlanks_append hback, skipBlanks_cons rfl]
    rfl
  | @SpellsMembers.more key value members front gap cs ds hfront hgap h hmore, fuel + 1, rest,
      hfuel => by
    simp only [List.length_append, List.length_cons] at hfuel
    have hends : Numeral.Ends (',' :: (ds ++ rest)) := by intro c hc; cases hc; decide
    have hread := h.read fuel (',' :: (ds ++ rest)) hends (by omega)
    simp only [List.append_assoc, List.cons_append]
    rw [readMembers?_append _ hfront, readMembers?_key, readValue?_append fuel hgap, hread]
    dsimp only
    rw [skipBlanks_cons rfl]
    show (readMembers? fuel (ds ++ rest)).map _ = _
    rw [hmore.read fuel rest (by omega)]
    rfl

end

/-- A text that spells a tree is read as that tree. -/
theorem Spells.read?_ofList {tree : Tree} {cs : List Char} (h : Spells tree cs) :
    read? (String.ofList cs) = some tree := by
  have hread := h.read (2 * cs.length + 2) [] nofun (by omega)
  rw [List.append_nil] at hread
  unfold read?
  rw [String.toList_ofList]
  dsimp only
  rw [hread]
  rfl

/-! ## Compact texts -/

mutual

theorem spells_compactChars : ∀ tree : Tree, Spells tree (compactChars tree)
  | .null => .null
  | .bool b => .bool b
  | .number n => .number n
  | .string s => .string s
  | .array [] => .noItems
  | .array (item :: items) => .items (spells_compactItems items (spells_compactChars item))
  | .object [] => .noMembers
  | .object ((key, value) :: members) =>
    .members (spells_compactMembers members key (spells_compactChars value))

theorem spells_compactItems : ∀ (items : List Tree) {item : Tree} {cs : List Char},
    Spells item cs → SpellsItems (item :: items) (cs ++ compactItems items)
  | [], _, _, h => .last blanks_nil h blanks_nil
  | next :: items, _, _, h =>
    .more blanks_nil h (spells_compactItems items (spells_compactChars next))

theorem spells_compactMembers : ∀ (members : List (Option String × Tree)) {value : Tree}
    (key : Option String) {cs : List Char}, Spells value cs →
      SpellsMembers ((key, value) :: members)
        (quoteChars key ++ ':' :: (cs ++ compactMembers members))
  | [], _, _, _, h => .last blanks_nil blanks_nil h blanks_nil
  | (next, value) :: members, _, _, _, h =>
    .more blanks_nil blanks_nil h (spells_compactMembers members next (spells_compactChars value))

end

/-- A tree is read back from its compact text. -/
theorem read?_compact (tree : Tree) : read? tree.compact = some tree :=
  (spells_compactChars tree).read?_ofList

/-! ## Indented texts -/

mutual

theorem spells_prettyChars : ∀ (depth : Nat) (tree : Tree), Spells tree (prettyChars depth tree)
  | _, .null => .null
  | _, .bool b => .bool b
  | _, .number n => .number n
  | _, .string s => .string s
  | _, .array [] => .noItems
  | depth, .array (item :: items) => by
    rw [prettyChars, List.append_assoc]
    exact .items (spells_prettyItems depth items (blanks_newline _) (spells_prettyChars _ item))
  | _, .object [] => .noMembers
  | depth, .object ((key, value) :: members) => by
    rw [prettyChars, List.append_assoc]
    exact .members (spells_prettyMembers depth members key (blanks_newline _)
      (spells_prettyChars _ value))

theorem spells_prettyItems : ∀ (depth : Nat) (items : List Tree) {item : Tree}
    {front cs : List Char}, Blanks front → Spells item cs →
      SpellsItems (item :: items) (front ++ (cs ++ prettyItems depth items))
  | depth, [], _, _, _, hfront, h => .last hfront h (blanks_newline depth)
  | depth, next :: items, _, _, _, hfront, h => by
    have hmore := spells_prettyItems depth items (blanks_newline (depth + 1))
      (spells_prettyChars (depth + 1) next)
    rw [prettyItems, List.append_assoc]
    exact .more hfront h hmore

theorem spells_prettyMembers : ∀ (depth : Nat) (members : List (Option String × Tree))
    {value : Tree} (key : Option String) {front cs : List Char}, Blanks front → Spells value cs →
      SpellsMembers ((key, value) :: members)
        (front ++ (quoteChars key ++ ':' :: ' ' :: (cs ++ prettyMembers depth members)))
  | depth, [], _, key, _, _, hfront, h => by
    have hgap : Blanks [' '] := by intro c hc; rw [List.mem_singleton.1 hc]; rfl
    exact .last hfront hgap h (blanks_newline depth)
  | depth, (next, value) :: members, _, key, _, _, hfront, h => by
    have hgap : Blanks [' '] := by intro c hc; rw [List.mem_singleton.1 hc]; rfl
    have hmore := spells_prettyMembers depth members next (blanks_newline (depth + 1))
      (spells_prettyChars (depth + 1) value)
    rw [prettyMembers, List.append_assoc]
    exact .more hfront hgap h hmore

end

/-- A tree is read back from its indented text. -/
theorem read?_pretty (tree : Tree) : read? tree.pretty = some tree :=
  (spells_prettyChars 0 tree).read?_ofList

end Tree

end Newsletter.Json
