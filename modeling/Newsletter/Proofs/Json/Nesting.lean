/-
How many arrays and objects of a JSON text are open at once, counted on its characters. Main
statement: every text that spells a tree has as many nested levels as the tree.
-/
import Newsletter.Proofs.Json.Canonical

namespace Newsletter.Json.Tree

/-! ## Counting on characters -/

/-- The greatest number of brackets and braces that are open at once in a text without quotes, of
which `opened` are open in front of it. -/
def deepest (opened : ℕ) : List Char → ℕ
  | [] => opened
  | c :: cs =>
    if c = '[' ∨ c = '\x7b' then deepest (opened + 1) cs
    else if c = ']' ∨ c = '\x7d' then max opened (deepest (opened - 1) cs)
    else deepest opened cs

/-- The nested levels of a JSON text. Brackets and braces between quotes open nothing. -/
def nesting (text : String) : ℕ := deepest 0 (unquoted false text.toList)

theorem le_deepest (opened : ℕ) (cs : List Char) : opened ≤ deepest opened cs := by
  fun_induction deepest opened cs with
  | case1 => exact Nat.le_refl _
  | case2 opened c cs h ih => exact Nat.le_of_succ_le ih
  | case3 opened c cs h h' ih => exact Nat.le_max_left _ _
  | case4 opened c cs h h' ih => exact ih

theorem max_deepest (opened : ℕ) (cs : List Char) :
    max opened (deepest opened cs) = deepest opened cs :=
  Nat.max_eq_right (le_deepest opened cs)

/-- Neither a quote nor a bracket nor a brace. -/
def isFlat (c : Char) : Bool :=
  c != '"' && c != '[' && c != '\x7b' && c != ']' && c != '\x7d'

theorem deepest_flat {front : List Char} (h : front.all isFlat = true) (opened : ℕ)
    (cs : List Char) :
    deepest opened (unquoted false (front ++ cs)) = deepest opened (unquoted false cs) := by
  induction front with
  | nil => rfl
  | cons c front ih =>
    rw [List.all_cons, Bool.and_eq_true] at h
    have hflat := h.1
    unfold isFlat at hflat
    simp only [Bool.and_eq_true, bne_iff_ne] at hflat
    obtain ⟨⟨⟨⟨hquote, hbracket⟩, hbrace⟩, hclosed⟩, hend⟩ := hflat
    rw [List.cons_append, unquoted, if_neg hquote, deepest, if_neg (by simp [hbracket, hbrace]),
      if_neg (by simp [hclosed, hend]), ih h.2]

theorem Blanks.flat {front : List Char} (h : Blanks front) : front.all isFlat = true := by
  rw [List.all_eq_true]
  intro c hc
  have hblank := h c hc
  unfold isBlank at hblank
  simp only [Bool.or_eq_true, decide_eq_true_eq] at hblank
  rcases hblank with ((rfl | rfl) | rfl) | rfl <;> rfl

theorem deepest_blanks {front : List Char} (h : Blanks front) (opened : ℕ) (cs : List Char) :
    deepest opened (unquoted false (front ++ cs)) = deepest opened (unquoted false cs) :=
  deepest_flat h.flat opened cs

theorem flat_numeral (n : Numeral) : n.chars.all isFlat = true :=
  n.all_chars (by decide) (by decide)

/-- A bracket or brace opens a level. -/
theorem deepest_open {c : Char} (h : c = '[' ∨ c = '\x7b') (opened : ℕ) (cs : List Char) :
    deepest opened (unquoted false (c :: cs)) = deepest (opened + 1) (unquoted false cs) := by
  have hquote : c ≠ '"' := by rcases h with rfl | rfl <;> decide
  rw [unquoted, if_neg hquote, deepest, if_pos h]

/-- Another one closes it again. -/
theorem deepest_close {c : Char} (h : c = ']' ∨ c = '\x7d') (opened : ℕ) (cs : List Char) :
    deepest (opened + 1) (unquoted false (c :: cs)) =
      max (opened + 1) (deepest opened (unquoted false cs)) := by
  have hquote : c ≠ '"' := by rcases h with rfl | rfl <;> decide
  have hopen : ¬(c = '[' ∨ c = '\x7b') := by rcases h with rfl | rfl <;> decide
  rw [unquoted, if_neg hquote, deepest, if_neg hopen, if_pos h, Nat.add_sub_cancel]

theorem deepest_next {c : Char} (h : isFlat c = true) (opened : ℕ) (cs : List Char) :
    deepest opened (unquoted false (c :: cs)) = deepest opened (unquoted false cs) :=
  have hflat : [c].all isFlat = true := by rw [List.all_cons, h]; rfl
  deepest_flat hflat opened cs

/-! ## Texts of trees -/

mutual

/-- The characters of a value open as many levels as it has, and close them again. -/
theorem Spells.deepest {tree : Tree} {cs : List Char} : Spells tree cs → ∀ (opened : ℕ)
    (rest : List Char), Tree.deepest opened (unquoted false (cs ++ rest)) =
      max (opened + tree.levels) (Tree.deepest opened (unquoted false rest))
  | .null, opened, rest =>
    (deepest_flat (by decide) opened rest).trans (max_deepest opened _).symm
  | .bool true, opened, rest =>
    (deepest_flat (by decide) opened rest).trans (max_deepest opened _).symm
  | .bool false, opened, rest =>
    (deepest_flat (by decide) opened rest).trans (max_deepest opened _).symm
  | .number n, opened, rest =>
    (deepest_flat (flat_numeral n) opened rest).trans (max_deepest opened _).symm
  | .string s, opened, rest =>
    (congrArg _ (unquoted_quoteChars s rest)).trans (max_deepest opened _).symm
  | .noItems, opened, rest => by
    show Tree.deepest opened (unquoted false ('[' :: ']' :: rest)) = _
    rw [deepest_open (.inl rfl), deepest_close (.inl rfl)]
    rfl
  | .noMembers, opened, rest => by
    show Tree.deepest opened (unquoted false ('\x7b' :: '\x7d' :: rest)) = _
    rw [deepest_open (.inr rfl), deepest_close (.inr rfl)]
    rfl
  -- the closing bracket is among the characters of the items
  | .items h, opened, rest => by
    rw [List.cons_append, deepest_open (.inl rfl), h.deepest, levels]
    omega
  | .members h, opened, rest => by
    rw [List.cons_append, deepest_open (.inr rfl), h.deepest, levels]
    omega

theorem SpellsItems.deepest {items : List Tree} {cs : List Char} : SpellsItems items cs →
    ∀ (opened : ℕ) (rest : List Char), Tree.deepest (opened + 1) (unquoted false (cs ++ rest)) =
      max (opened + 1 + levelsItems items) (Tree.deepest opened (unquoted false rest))
  | @SpellsItems.last item front cs back hfront h hback, opened, rest => by
    simp only [List.append_assoc, List.singleton_append]
    rw [deepest_blanks hfront, h.deepest, deepest_blanks hback, deepest_close (.inl rfl), levelsItems,
      levelsItems]
    omega
  | @SpellsItems.more item items front cs ds hfront h hmore, opened, rest => by
    simp only [List.append_assoc, List.cons_append]
    rw [deepest_blanks hfront, h.deepest, deepest_next rfl, hmore.deepest, levelsItems]
    omega

theorem SpellsMembers.deepest {members : List (Option String × Tree)} {cs : List Char} :
    SpellsMembers members cs → ∀ (opened : ℕ) (rest : List Char),
      Tree.deepest (opened + 1) (unquoted false (cs ++ rest)) =
        max (opened + 1 + levelsMembers members) (Tree.deepest opened (unquoted false rest))
  | @SpellsMembers.last key value front gap cs back hfront hgap h hback, opened, rest => by
    simp only [List.append_assoc, List.cons_append, List.nil_append]
    rw [deepest_blanks hfront, unquoted_quoteChars, deepest_next rfl, deepest_blanks hgap, h.deepest,
      deepest_blanks hback, deepest_close (.inr rfl), levelsMembers, levelsMembers]
    omega
  | @SpellsMembers.more key value members front gap cs ds hfront hgap h hmore, opened, rest => by
    simp only [List.append_assoc, List.cons_append]
    rw [deepest_blanks hfront, unquoted_quoteChars, deepest_next rfl, deepest_blanks hgap, h.deepest,
      deepest_next rfl, hmore.deepest, levelsMembers]
    omega

end

theorem nesting_ofList {tree : Tree} {cs : List Char} (h : Spells tree cs) :
    nesting (String.ofList cs) = tree.levels := by
  have hdeepest := h.deepest 0 []
  rw [List.append_nil, Nat.zero_add] at hdeepest
  unfold nesting
  rw [String.toList_ofList, hdeepest]
  exact Nat.max_eq_left (Nat.zero_le _)

@[simp] theorem nesting_compact (tree : Tree) : nesting tree.compact = tree.levels :=
  nesting_ofList (spells_compactChars tree)

@[simp] theorem nesting_pretty (tree : Tree) : nesting tree.pretty = tree.levels :=
  nesting_ofList (spells_prettyChars 0 tree)

end Newsletter.Json.Tree
