/-
Main statement: markup that can be written is read back as it was, whatever its texts and attribute
values hold. Markup can be written when its names are names, no attribute stands twice in a tag, no
text is empty and no text stands next to another one.
-/
import Newsletter.Proofs.Markup.Reader
import Mathlib.Data.List.Basic

namespace Newsletter.Markup

/-! ## Free text -/

theorem unescape?_cons {c : Char} (hamp : c ≠ '&') (hlt : c ≠ '<') (rest : List Char) :
    unescape? (c :: rest) = (unescape? rest).map (c :: ·) := by
  conv_lhs => unfold unescape?
  split <;> simp_all

/-- One written character is read back. -/
theorem unescape?_escapeChar (c : Char) (rest : List Char) :
    unescape? (escapeChar c ++ rest) = (unescape? rest).map (c :: ·) := by
  unfold escapeChar
  split
  · rename_i h; subst h; simp [unescape?]
  · rename_i hamp
    split
    · rename_i h; subst h; simp [unescape?]
    · rename_i hlt
      split
      · rename_i h; subst h; simp [unescape?]
      · split
        · rename_i h; subst h; simp [unescape?]
        · split
          · rename_i h; subst h; simp [unescape?]
          · rw [List.singleton_append, unescape?_cons hamp hlt]

/-- Written text stands for the text that was written. -/
theorem unescape?_flatMap (cs : List Char) : unescape? (cs.flatMap escapeChar) = some cs := by
  induction cs with
  | nil => rfl
  | cons c cs ih => rw [List.flatMap_cons, unescape?_escapeChar, ih, Option.map_some]

/-- Written text holds neither `<` nor double quotes, so it ends where it was meant to. -/
theorem ne_of_mem_escapeChar {c d : Char} (h : d ∈ escapeChar c) : d ≠ '<' ∧ d ≠ '"' := by
  unfold escapeChar at h
  split_ifs at h with h1 h2 h3 h4 h5
  -- either the character stands for itself, or its entity is spelled out
  all_goals first
    | (rw [List.mem_singleton] at h; subst h; exact ⟨h2, h4⟩)
    | simpa using List.all_eq_true (p := fun d => d != '<' && d != '"').1 (by decide) d h

theorem toList_escape (text : String) : (escape text).toList = text.toList.flatMap escapeChar := by
  rw [escape, String.toList_ofList]

theorem unescape?_escape (text : String) : unescape? (escape text).toList = some text.toList := by
  rw [toList_escape, unescape?_flatMap]

theorem ne_of_mem_escape {text : String} {d : Char} (h : d ∈ (escape text).toList) :
    d ≠ '<' ∧ d ≠ '"' := by
  rw [toList_escape, List.mem_flatMap] at h
  obtain ⟨c, -, hd⟩ := h
  exact ne_of_mem_escapeChar hd

theorem escape_ne_nil {text : String} (h : text ≠ "") : (escape text).toList ≠ [] := by
  intro hnil
  have hback := unescape?_escape text
  rw [hnil] at hback
  exact h (String.toList_eq_nil_iff.1 (Option.some.inj hback).symm)

/-! ## Tags -/

/-- A run of characters is read up to the first one that does not belong to it. -/
theorem span_append {p : Char → Bool} {run : List Char} (hrun : ∀ c ∈ run, p c = true)
    (rest : List Char) (hrest : ∀ c ∈ rest.head?, p c = false) :
    (run ++ rest).takeWhile p = run ∧ (run ++ rest).dropWhile p = rest := by
  rw [List.takeWhile_append_of_pos hrun, List.dropWhile_append_of_pos hrun]
  cases rest with
  | nil => simp
  | cons c cs => simp [hrest c rfl]

/-- A text that can stand as a name. -/
def IsName (name : String) : Prop := name.toList ≠ [] ∧ ∀ c ∈ name.toList, isNameChar c = true

instance (name : String) : Decidable (IsName name) :=
  decidable_of_iff (name.toList ≠ [] ∧ name.toList.all isNameChar = true)
    (and_congr_right fun _ => List.all_eq_true)

theorem readName?_append {name : String} (h : IsName name) {rest : List Char}
    (hrest : ∀ c ∈ rest.head?, isNameChar c = false) :
    readName? (name.toList ++ rest) = some (name, rest) := by
  obtain ⟨htake, hdrop⟩ := span_append h.2 rest hrest
  unfold readName?
  rw [htake, hdrop]
  split
  · rename_i hnil; exact absurd hnil h.1
  · rw [String.ofList_toList]

theorem readValue?_append (value : String) (rest : List Char) :
    readValue? ('"' :: ((escape value).toList ++ '"' :: rest)) = some (value, rest) := by
  have hrun : ∀ c ∈ (escape value).toList, decide (c ≠ '"') = true := by
    intro c hc; exact decide_eq_true (ne_of_mem_escape hc).2
  obtain ⟨htake, hdrop⟩ := span_append hrun ('"' :: rest) (by rintro c ⟨⟩; decide)
  simp only [readValue?]
  rw [htake, hdrop, unescape?_escape]
  simp only [String.ofList_toList]

theorem readAttribute?_append {name : String} (h : IsName name) (value : String) (rest : List Char) :
    readAttribute? (name.toList ++ '=' :: '"' :: ((escape value).toList ++ '"' :: rest)) =
      some ((name, value), rest) := by
  unfold readAttribute?
  rw [readName?_append h (by rintro c ⟨⟩; decide)]
  simp only [readValue?_append, Option.map_some]

/-- Attributes that can stand in one tag. -/
structure AttributesOk (attributes : List (String × String)) : Prop where
  names : ∀ a ∈ attributes, IsName a.1
  nodup : (attributes.map Prod.fst).Nodup

/-- How a tag ends that closes itself or does not. -/
def tagEnd (closed : Bool) : List Char := if closed then [' ', '/', '>'] else ['>']

theorem toList_renderAttributes_cons (name value : String) (rest : List (String × String)) :
    (renderAttributes ((name, value) :: rest)).toList =
      ' ' :: (name.toList ++ '=' :: '"' :: ((escape value).toList ++ '"' ::
        (renderAttributes rest).toList)) := by
  simp [renderAttributes]

theorem length_le_renderAttributes (attributes : List (String × String)) :
    attributes.length ≤ (renderAttributes attributes).toList.length := by
  induction attributes with
  | nil => exact Nat.zero_le _
  | cons a rest ih =>
    obtain ⟨name, value⟩ := a
    rw [toList_renderAttributes_cons]
    simp only [List.length_cons, List.length_append]
    omega

theorem isNameChar_not {c : Char} (h : isNameChar c = true) :
    isBlank c = false ∧ c ≠ '>' ∧ c ≠ '/' := by
  refine ⟨?_, by rintro rfl; revert h; decide, by rintro rfl; revert h; decide⟩
  by_contra hb
  simp only [isBlank, Bool.not_eq_false, Bool.or_eq_true, decide_eq_true_eq] at hb
  obtain ((rfl | rfl) | rfl) | rfl := hb <;> revert h <;> decide

/-- The attributes of a tag are read back up to the end of the tag. -/
theorem readAttributes?_append (closed : Bool) (rest : List Char) :
    ∀ (attributes : List (String × String)) (fuel : Nat), AttributesOk attributes →
      attributes.length < fuel →
      readAttributes? fuel ((renderAttributes attributes).toList ++ (tagEnd closed ++ rest)) =
        some (attributes, closed, rest)
  | _, 0, _, hfuel => absurd hfuel (Nat.not_lt_zero _)
  | [], fuel + 1, _, _ => by cases closed <;> rfl
  | (name, value) :: others, fuel + 1, hok, hfuel => by
    have hname : IsName name := hok.names _ List.mem_cons_self
    have hothers : AttributesOk others :=
      ⟨fun a ha => hok.names a (List.mem_cons_of_mem _ ha), (List.nodup_cons.1 hok.nodup).2⟩
    have hnew : name ∉ others.map Prod.fst := (List.nodup_cons.1 hok.nodup).1
    have ih := readAttributes?_append closed rest others fuel hothers
      (by simp only [List.length_cons] at hfuel; omega)
    obtain ⟨c, cs, hcs⟩ := List.exists_cons_of_ne_nil hname.1
    obtain ⟨hblank, hgt, hslash⟩ := isNameChar_not (hname.2 c (by rw [hcs]; exact List.mem_cons_self))
    have hone := readAttribute?_append hname value
      ((renderAttributes others).toList ++ (tagEnd closed ++ rest))
    rw [toList_renderAttributes_cons]
    simp only [hcs, List.cons_append, List.append_assoc] at hone ⊢
    simp only [readAttributes?, List.dropWhile_cons, hblank]
    simp only [isBlank, List.head?_cons, Option.any_some, decide_true, Bool.true_or, if_true]
    -- a name follows the blank, so the tag does not end here
    split
    · rename_i heq; exact absurd (List.cons.inj heq).1 hgt
    · rename_i heq; exact absurd (List.cons.inj heq).1 hslash
    · simp [hone, ih, hnew]

theorem readStart?_append {name : String} (h : IsName name) {attributes : List (String × String)}
    (hok : AttributesOk attributes) (closed : Bool) (rest : List Char) :
    readStart? (name.toList ++ ((renderAttributes attributes).toList ++ (tagEnd closed ++ rest))) =
      some (name, attributes, closed, rest) := by
  have hend : ∀ c ∈ ((renderAttributes attributes).toList ++ (tagEnd closed ++ rest)).head?,
      isNameChar c = false := by
    cases attributes with
    | nil => cases closed <;> (rintro c ⟨⟩; decide)
    | cons a others =>
      obtain ⟨n, v⟩ := a
      rw [toList_renderAttributes_cons]
      rintro c ⟨⟩; decide
  have hlen := length_le_renderAttributes attributes
  unfold readStart?
  rw [readName?_append h hend]
  simp only
  rw [readAttributes?_append closed rest attributes _ hok
    (by simp only [List.length_append]; omega)]
  rfl

theorem readEnd?_append {name : String} (h : IsName name) (rest : List Char) :
    readEnd? name ('<' :: '/' :: (name.toList ++ '>' :: rest)) = some rest := by
  simp only [readEnd?]
  rw [readName?_append h (by rintro c ⟨⟩; decide)]
  simp [isBlank]

/-! ## Writable markup -/

/-- Whether a piece is character data. -/
def isText : Markup → Bool
  | .text _ => true
  | .element .. | .void .. => false

mutual

/-- A piece that can be written. -/
def Writable : Markup → Prop
  | .text content => content ≠ ""
  | .element name attributes children =>
    IsName name ∧ AttributesOk attributes ∧ WritableList children
  | .void name attributes => IsName name ∧ AttributesOk attributes

/-- Pieces that can be written one after the other: no two texts are neighbours. -/
def WritableList : List Markup → Prop
  | [] => True
  | piece :: pieces =>
    Writable piece ∧ (piece.isText → ∀ next ∈ pieces.head?, next.isText = false) ∧
      WritableList pieces

end

/-- The end of a forest: the end of the text or an end tag. -/
def AtEnd (rest : List Char) : Prop := rest = [] ∨ ∃ after, rest = '<' :: '/' :: after

theorem readForest?_atEnd {rest : List Char} (h : AtEnd rest) (fuel : Nat) :
    readForest? (fuel + 1) rest = some ([], rest) := by
  obtain rfl | ⟨after, rfl⟩ := h <;> rfl

theorem readForest?_tag {c : Char} (h : c ≠ '/') (fuel : Nat) (cs : List Char) :
    readForest? (fuel + 1) ('<' :: c :: cs) = (do
      let (name, attributes, closed, rest) ← readStart? (c :: cs)
      if closed then
        let (pieces, rest) ← readForest? fuel rest
        return (.void name attributes :: pieces, rest)
      else
        let (children, rest) ← readForest? fuel rest
        let rest ← readEnd? name rest
        let (pieces, rest) ← readForest? fuel rest
        return (.element name attributes children :: pieces, rest)) := by
  rw [readForest?]
  rintro rest heq
  exact h (List.cons.inj heq).1

theorem readForest?_text {c : Char} (h : c ≠ '<') (fuel : Nat) (cs : List Char) :
    readForest? (fuel + 1) (c :: cs) = (do
      let content ← unescape? ((c :: cs).takeWhile (· ≠ '<'))
      let (pieces, rest) ← readForest? fuel ((c :: cs).dropWhile (· ≠ '<'))
      return (.text (String.ofList content) :: pieces, rest)) := by
  rw [readForest?]
  · exact List.cons_ne_nil c cs
  · rintro rest heq; exact h (List.cons.inj heq).1
  · rintro rest heq; exact h (List.cons.inj heq).1

theorem toList_render_element (name : String) (attributes : List (String × String))
    (children : List Markup) : (render (.element name attributes children)).toList =
      '<' :: (name.toList ++ ((renderAttributes attributes).toList ++ (tagEnd false ++
        ((renderList children).toList ++ '<' :: '/' :: (name.toList ++ ['>']))))) := by
  simp [render, tagEnd]

theorem toList_render_void (name : String) (attributes : List (String × String)) :
    (render (.void name attributes)).toList =
      '<' :: (name.toList ++ ((renderAttributes attributes).toList ++ tagEnd true)) := by
  simp [render, tagEnd]

theorem toList_renderList_cons (piece : Markup) (pieces : List Markup) :
    (renderList (piece :: pieces)).toList = (render piece).toList ++ (renderList pieces).toList := by
  simp [renderList]

/-- After a text comes a tag or the end. -/
theorem head_renderList {pieces : List Markup} (h : ∀ next ∈ pieces.head?, next.isText = false)
    {rest : List Char} (hrest : AtEnd rest) :
    ∀ c ∈ ((renderList pieces).toList ++ rest).head?, c = '<' := by
  cases pieces with
  | nil =>
    obtain rfl | ⟨after, rfl⟩ := hrest
    · rintro c ⟨⟩
    · rintro c ⟨⟩; rfl
  | cons piece pieces =>
    rw [toList_renderList_cons]
    cases piece with
    | text content => exact absurd (h _ rfl) (by simp [isText])
    | element name attributes children => rw [toList_render_element]; rintro c ⟨⟩; rfl
    | void name attributes => rw [toList_render_void]; rintro c ⟨⟩; rfl

/-! ## One piece -/

section Piece

variable {fuel : Nat} {after rest : List Char} {pieces : List Markup}

theorem readForest?_text_append {content : String} (hne : content ≠ "")
    (hafter : ∀ c ∈ after.head?, c = '<') (ih : readForest? fuel after = some (pieces, rest)) :
    readForest? (fuel + 1) ((escape content).toList ++ after) =
      some (.text content :: pieces, rest) := by
  have hrun : ∀ c ∈ (escape content).toList, decide (c ≠ '<') = true := by
    intro c hc; exact decide_eq_true (ne_of_mem_escape hc).1
  obtain ⟨htake, hdrop⟩ := span_append hrun after
    (by intro c hc; rw [hafter c hc]; decide)
  -- the written text is not empty and does not start with `<`
  obtain ⟨c, cs, hcs⟩ := List.exists_cons_of_ne_nil (escape_ne_nil hne)
  have hc : c ≠ '<' := (ne_of_mem_escape (by rw [hcs]; exact List.mem_cons_self)).1
  rw [hcs] at htake hdrop ⊢
  rw [List.cons_append, readForest?_text hc, ← List.cons_append, htake, hdrop, ← hcs,
    unescape?_escape, ih]
  simp only [Option.bind_eq_bind, Option.bind_some, Option.pure_def, String.ofList_toList]

variable {name : String} (hname : IsName name) {attributes : List (String × String)}
  (hok : AttributesOk attributes)

include hname in
/-- A tag starts with no `/`, so it is no end tag. -/
theorem exists_name_cons : ∃ c cs, name.toList = c :: cs ∧ c ≠ '/' := by
  obtain ⟨c, cs, hcs⟩ := List.exists_cons_of_ne_nil hname.1
  exact ⟨c, cs, hcs, (isNameChar_not (hname.2 c (by rw [hcs]; exact List.mem_cons_self))).2.2⟩

include hname hok

theorem readForest?_void_append (ih : readForest? fuel after = some (pieces, rest)) :
    readForest? (fuel + 1) ((render (.void name attributes)).toList ++ after) =
      some (.void name attributes :: pieces, rest) := by
  have hstart := readStart?_append hname hok true after
  obtain ⟨c, cs, hcs, hc⟩ := exists_name_cons hname
  rw [toList_render_void]
  simp only [hcs, List.cons_append, List.append_assoc] at hstart ⊢
  rw [readForest?_tag hc, hstart]
  simp only [Option.bind_eq_bind, Option.bind_some, if_true, ih, Option.pure_def]

theorem readForest?_element_append {children : List Markup}
    (ihchildren : readForest? fuel
      ((renderList children).toList ++ '<' :: '/' :: (name.toList ++ '>' :: after)) =
        some (children, '<' :: '/' :: (name.toList ++ '>' :: after)))
    (ih : readForest? fuel after = some (pieces, rest)) :
    readForest? (fuel + 1) ((render (.element name attributes children)).toList ++ after) =
      some (.element name attributes children :: pieces, rest) := by
  have hstart := readStart?_append hname hok false
    ((renderList children).toList ++ '<' :: '/' :: (name.toList ++ '>' :: after))
  have hend := readEnd?_append hname after
  obtain ⟨c, cs, hcs, hc⟩ := exists_name_cons hname
  rw [toList_render_element]
  simp only [hcs, List.cons_append, List.append_assoc, List.nil_append] at hstart hend ihchildren ⊢
  rw [readForest?_tag hc, hstart]
  simp only [Option.bind_eq_bind, Option.bind_some, Bool.false_eq_true, if_false, ihchildren, hend,
    ih, Option.pure_def]

end Piece

/-! ## Forests -/

/-- Reading a written forest gives the forest back, with whatever follows it left over. The
children of an element and the pieces after it are both shorter than what is read. -/
theorem readForest?_renderList (fuel : Nat) : ∀ (pieces : List Markup) (rest : List Char),
    WritableList pieces → AtEnd rest → (renderList pieces).toList.length < fuel →
    readForest? fuel ((renderList pieces).toList ++ rest) = some (pieces, rest) := by
  induction fuel with
  | zero => intro _ _ _ _ hfuel; exact absurd hfuel (Nat.not_lt_zero _)
  | succ fuel ih =>
    intro pieces rest hw hrest hfuel
    cases pieces with
    | nil => exact readForest?_atEnd hrest fuel
    | cons piece pieces =>
      obtain ⟨hpiece, hnext, hpieces⟩ := hw
      rw [toList_renderList_cons, List.length_append] at hfuel
      rw [toList_renderList_cons, List.append_assoc]
      cases piece with
      | text content =>
        have hpos : 0 < (render (.text content)).toList.length :=
          List.length_pos_iff.2 (escape_ne_nil hpiece)
        exact readForest?_text_append hpiece (head_renderList (hnext rfl) hrest)
          (ih pieces rest hpieces hrest (by omega))
      | void name attributes =>
        obtain ⟨hname, hok⟩ := hpiece
        rw [toList_render_void, List.length_cons] at hfuel
        exact readForest?_void_append hname hok (ih pieces rest hpieces hrest (by omega))
      | element name attributes children =>
        obtain ⟨hname, hok, hchildren⟩ := hpiece
        rw [toList_render_element] at hfuel
        simp only [List.length_append, List.length_cons] at hfuel
        exact readForest?_element_append hname hok
          (ih children _ hchildren (.inr ⟨_, rfl⟩) (by omega))
          (ih pieces rest hpieces hrest (by omega))

/-- Markup that can be written is read back as it was. -/
theorem read?_renderList {pieces : List Markup} (h : WritableList pieces) :
    read? (renderList pieces) = some pieces := by
  have hread := readForest?_renderList ((renderList pieces).toList.length + 1) pieces [] h
    (.inl rfl) (Nat.lt_succ_self _)
  rw [List.append_nil] at hread
  unfold read?
  rw [hread]

example : read? "<a b=\"1&quot;\">&lt;c /&gt; <c /></a>" =
    some [.element "a" [("b", "1\"")] [.text "<c /> ", .void "c" []]] := by cbv

example : read? "<a b=\"1\" b=\"2\" />" = none := by cbv

example : read? "<a><b></a></b>" = none := by cbv

end Newsletter.Markup
