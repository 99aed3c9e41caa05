/-
New identifiers. Main statement: in every document the search for one ends, in at most one round
more than there are shapes; it takes the least number above the last one used whose identifier no
shape has, and changes nothing else; and identifiers that are given one after the other are distinct,
though no shape has any of them yet.
-/
import Newsletter.Proofs.Decimal.Digits
import Newsletter.Proofs.Design.Insertion
import Mathlib.Order.Bounds.Basic

namespace Newsletter

namespace Document

variable {doc later : Document}

/-! ## Unused numbers -/

theorem nodeId_eq (n : ℕ) : nodeId n = "node-" ++ toString n := by
  rw [nodeId, Digits.ofList_chars_ofNat]

/-- A number that can be taken: it is above the last one used, and no shape has its identifier. -/
structure Unused (doc : Document) (n : ℕ) : Prop where
  above : doc.lastNumber < n
  absent : ∀ shape ∈ doc.shapes, shape.id ≠ "node-" ++ toString n

theorem unused_iff {n : ℕ} :
    doc.Unused n ↔ doc.lastNumber < n ∧ doc.find? (nodeId n) = none := by
  have hfind : doc.find? (nodeId n) = none ↔
      ∀ shape ∈ doc.shapes, shape.id ≠ "node-" ++ toString n := by
    rw [← Option.not_isSome_iff_eq_none, isSome_find?, nodeId_eq]
    simp
  rw [hfind]
  exact ⟨fun h => ⟨h.above, h.absent⟩, fun h => ⟨h.1, h.2⟩⟩

theorem isLeast_nextNumber (doc : Document) : IsLeast {n | doc.Unused n} doc.nextNumber := by
  constructor
  · exact unused_iff.2 ⟨doc.lastNumber_lt, doc.find?_nextNumber⟩
  · intro n hn
    obtain ⟨habove, hfree⟩ := unused_iff.1 hn
    by_contra hlt
    have htaken := doc.isSome_find?_of_lt_nextNumber habove (Nat.lt_of_not_le hlt)
    rw [hfree] at htaken
    cases htaken

/-! ## The search -/

/-- One round of the search: one more number counts as used, and its identifier is given unless a
shape has it. -/
def round (doc : Document) : Option String × Document :=
  let next := { doc with lastNumber := doc.lastNumber + 1 }
  let id := nodeId next.lastNumber
  (if (next.find? id).isNone then some id else none, next)

/-- A search that ends: some rounds, of which the last one gives the identifier. -/
inductive Search : Document → ℕ → String → Document → Prop
  | given {doc later : Document} {id : String} : doc.round = (some id, later) →
      Search doc 1 id later
  | again {doc next later : Document} {rounds : ℕ} {id : String} : doc.round = (none, next) →
      Search next rounds id later → Search doc (rounds + 1) id later

theorem round_of_unused (h : doc.Unused (doc.lastNumber + 1)) :
    doc.round = (some (nodeId (doc.lastNumber + 1)),
      { doc with lastNumber := doc.lastNumber + 1 }) := by
  have hfree : Document.find? { doc with lastNumber := doc.lastNumber + 1 }
      (nodeId (doc.lastNumber + 1)) = none := (unused_iff.1 h).2
  unfold round
  simp [hfree]

theorem round_of_used (h : ¬doc.Unused (doc.lastNumber + 1)) :
    doc.round = (none, { doc with lastNumber := doc.lastNumber + 1 }) := by
  have hfound : Document.find? { doc with lastNumber := doc.lastNumber + 1 }
      (nodeId (doc.lastNumber + 1)) ≠ none :=
    fun hfree => h (unused_iff.2 ⟨Nat.lt_succ_self _, hfree⟩)
  unfold round
  simp [hfound]

/-- To pass a number that is used leaves the same numbers to take. -/
theorem unused_next (h : ¬doc.Unused (doc.lastNumber + 1)) :
    {n | Unused { doc with lastNumber := doc.lastNumber + 1 } n} = {n | doc.Unused n} := by
  ext n
  constructor
  · rintro ⟨habove, habsent⟩
    exact ⟨Nat.lt_of_succ_lt habove, habsent⟩
  · intro hn
    have hne : n ≠ doc.lastNumber + 1 := by
      rintro rfl
      exact h hn
    have habove := hn.above
    exact ⟨by show doc.lastNumber + 1 < n; omega, hn.absent⟩

/-- By induction on the rounds: what a search passes is used, and it stops at the first number that
is not. -/
theorem Search.isLeast {rounds : ℕ} {id : String} (h : doc.Search rounds id later) :
    IsLeast {n | doc.Unused n} (doc.lastNumber + rounds) ∧
      (id, later) = (nodeId (doc.lastNumber + rounds),
        { doc with lastNumber := doc.lastNumber + rounds }) := by
  induction h with
  | @given doc later id hround =>
    by_cases hunused : doc.Unused (doc.lastNumber + 1)
    · rw [round_of_unused hunused] at hround
      cases hround
      exact ⟨⟨hunused, fun n hn => hn.above⟩, rfl⟩
    · rw [round_of_used hunused] at hround
      cases hround
  | @again doc next later rounds id hround _ ih =>
    by_cases hunused : doc.Unused (doc.lastNumber + 1)
    · rw [round_of_unused hunused] at hround
      cases hround
    · rw [round_of_used hunused] at hround
      cases hround
      rw [unused_next hunused] at ih
      rw [Nat.add_comm rounds 1, ← Nat.add_assoc]
      exact ih

/-- A search ends as soon as there is a number to take. -/
theorem search_of_isLeast : ∀ {rounds : ℕ} {doc : Document},
    IsLeast {n | doc.Unused n} (doc.lastNumber + rounds) →
      doc.Search rounds (nodeId (doc.lastNumber + rounds))
        { doc with lastNumber := doc.lastNumber + rounds }
  | 0, _, h => absurd h.1.above (Nat.lt_irrefl _)
  | rounds + 1, doc, h => by
    by_cases hunused : doc.Unused (doc.lastNumber + 1)
    · have hle : doc.lastNumber + (rounds + 1) ≤ doc.lastNumber + 1 := h.2 hunused
      obtain rfl : rounds = 0 := by omega
      exact .given (round_of_unused hunused)
    · rw [Nat.add_comm rounds 1, ← Nat.add_assoc] at h ⊢
      rw [← unused_next hunused] at h
      rw [Nat.add_comm 1 rounds]
      exact .again (round_of_used hunused) (search_of_isLeast h)

theorem nextNumber_le (doc : Document) :
    doc.nextNumber ≤ doc.lastNumber + doc.shapes.length + 1 := by
  have := firstFree_le (fun n => (doc.find? (nodeId n)).isSome) doc.shapes.length
    (doc.lastNumber + 1)
  rw [nextNumber]
  omega

theorem allocate_eq (doc : Document) : doc.allocate =
    (nodeId doc.nextNumber, { doc with lastNumber := doc.nextNumber }) := rfl

/-- The search ends with what is allocated, after one round for each number above the last one
used. -/
theorem exists_search (doc : Document) :
    ∃ rounds ≤ doc.shapes.length + 1, doc.Search rounds doc.allocate.1 doc.allocate.2 := by
  have hlt := doc.lastNumber_lt
  have hle := doc.nextNumber_le
  obtain ⟨rounds, hrounds⟩ := Nat.exists_eq_add_of_le (Nat.le_of_lt hlt)
  have hleast := doc.isLeast_nextNumber
  refine ⟨rounds, by omega, ?_⟩
  rw [doc.allocate_eq, hrounds]
  rw [hrounds] at hleast
  exact search_of_isLeast hleast

theorem Search.eq_allocate {rounds : ℕ} {id : String} (h : doc.Search rounds id later) :
    (id, later) = doc.allocate := by
  obtain ⟨hleast, heq⟩ := h.isLeast
  rw [heq, doc.allocate_eq, hleast.unique doc.isLeast_nextNumber]

/-! ## Allocations -/

/-- Identifiers given one after the other, while no shape is added. -/
def allocateMany : ℕ → Document → List String × Document
  | 0, doc => ([], doc)
  | calls + 1, doc =>
    let (id, doc) := doc.allocate
    let (ids, doc) := allocateMany calls doc
    (id :: ids, doc)

/-- The numbers of identifiers given one after the other ascend, and each of them was not used. By
induction on the calls, with the document general. -/
theorem exists_numbers : ∀ (calls : ℕ) (doc : Document), ∃ numbers : List ℕ,
    (allocateMany calls doc).1 = numbers.map nodeId ∧ numbers.length = calls ∧
      numbers.Pairwise (· < ·) ∧ ∀ n ∈ numbers, doc.Unused n
  | 0, _ => ⟨[], rfl, rfl, .nil, nofun⟩
  | calls + 1, doc => by
    obtain ⟨numbers, hids, hlength, hascending, hunused⟩ := exists_numbers calls doc.allocate.2
    -- the calls that follow count from the number that the first one took
    have hfollow : ∀ n ∈ numbers, doc.nextNumber < n := fun n hn => (hunused n hn).above
    refine ⟨doc.nextNumber :: numbers, ?_, ?_, ?_, ?_⟩
    · rw [allocateMany, List.map_cons, ← hids]
      rfl
    · rw [List.length_cons, hlength]
    · exact List.pairwise_cons.2 ⟨hfollow, hascending⟩
    · intro n hn
      rcases List.mem_cons.1 hn with rfl | hn
      · exact doc.isLeast_nextNumber.1
      · exact ⟨doc.lastNumber_lt.trans (hfollow n hn), (hunused n hn).absent⟩

/-- Identifiers for shapes to come: none is given twice, and no shape has one of them. -/
structure NewIds (doc : Document) (ids : List String) : Prop where
  nodup : ids.Nodup
  absent : ∀ shape ∈ doc.shapes, shape.id ∉ ids

theorem newIds_allocateMany (calls : ℕ) (doc : Document) :
    (allocateMany calls doc).1.length = calls ∧ doc.NewIds (allocateMany calls doc).1 := by
  obtain ⟨numbers, hids, hlength, hascending, hunused⟩ := exists_numbers calls doc
  rw [hids, List.length_map]
  refine ⟨hlength, ?_, ?_⟩
  · exact hascending.nodup.map fun n m => nodeId_injective
  · intro shape hshape hid
    obtain ⟨n, hn, heq⟩ := List.mem_map.1 hid
    exact (hunused n hn).absent shape hshape (by rw [← heq, nodeId_eq])

/-- What an allocation does that takes a number. -/
structure Takes (doc : Document) (n : ℕ) : Prop where
  least : IsLeast {n | doc.Unused n} n
  le : n ≤ doc.lastNumber + doc.shapes.length + 1
  allocate : doc.allocate = ("node-" ++ toString n, { doc with lastNumber := n })
  /-- The search ends with this result. -/
  ends : ∃ rounds ≤ doc.shapes.length + 1, doc.Search rounds doc.allocate.1 doc.allocate.2
  /-- It does not end with another one. -/
  unique : ∀ rounds id later, doc.Search rounds id later → (id, later) = doc.allocate

/-- An allocation takes the least number that is not used, after a search that ends; and however
many identifiers are given one after the other, they are distinct and new. -/
theorem allocate_takesLeast (doc : Document) :
    (∃ n, doc.Takes n) ∧
      ∀ calls, (allocateMany calls doc).1.length = calls ∧
        doc.NewIds (allocateMany calls doc).1 := by
  refine ⟨⟨doc.nextNumber, doc.isLeast_nextNumber, doc.nextNumber_le, ?_, ?_, ?_⟩, ?_⟩
  · rw [doc.allocate_eq, nodeId_eq]
  · exact doc.exists_search
  · intro rounds id later hsearch
    exact hsearch.eq_allocate
  · intro calls
    exact newIds_allocateMany calls doc

/-- Numbers above the last one used are taken, one of them twice and out of order. -/
example : (allocateMany 2 { empty with
    roots := [(Shape.plain "node-3" "Outer" .board).addChild (.plain "node-1" "Inner" .group),
      .plain "node-1" "Other" .board] }).1 = ["node-2", "node-4"] := by
  decide +kernel

end Document

end Newsletter
