import SqlFootprint.Tree.Node

/-!
# Neighbours that are no blanks

The closest node before or after a place that is neither white space nor a comment, by position in
a sequence and as the front of what follows. `significant?_eq_some_iff` says that the front is
reached over blanks only.
-/

namespace SqlFootprint.Node

/-- The first node that is no blank, and how many nodes there are up to it and with it. -/
def significant? : List Node → Option (Node × Nat)
  | [] => none
  | node :: rest =>
    if node.isBlank then (significant? rest).map fun found ↦ (found.1, found.2 + 1)
    else some (node, 1)

/-- The position of the closest node before a position that is no blank. -/
def prevSignificant? (nodes : List Node) (position : Nat) : Option Nat :=
  let before := nodes.take position
  (before.reverse.findIdx? fun node ↦ !node.isBlank).map fun i ↦ before.length - 1 - i

/-- The position of the closest node after a position that is no blank. -/
def nextSignificant? (nodes : List Node) (position : Nat) : Option Nat :=
  ((nodes.drop (position + 1)).findIdx? fun node ↦ !node.isBlank).map (position + 1 + ·)

/-- The last node that is no blank, once one more node is read. -/
def lastSignificant (last : Option Node) (node : Node) : Option Node :=
  if node.isBlank then last else some node

/-- The front of a sequence is reached over blanks only. -/
theorem significant?_eq_some_iff {nodes : List Node} {node : Node} {count : Nat} :
    significant? nodes = some (node, count) ↔
      ∃ blanks rest, nodes = blanks ++ node :: rest ∧ count = blanks.length + 1 ∧
        (∀ blank ∈ blanks, blank.isBlank = true) ∧ node.isBlank = false := by
  induction nodes generalizing count with
  | nil => simp [significant?]
  | cons first tail ih =>
    unfold significant?
    split
    · next hblank =>
      simp only [Option.map_eq_some_iff, Prod.mk.injEq, Prod.exists]
      constructor
      · rintro ⟨found, k, hfound, rfl, rfl⟩
        obtain ⟨blanks, rest, rfl, rfl, hall, hnode⟩ := ih.1 hfound
        exact ⟨first :: blanks, rest, rfl, rfl, by simpa [hblank] using hall, hnode⟩
      · rintro ⟨blanks, rest, heq, rfl, hall, hnode⟩
        cases blanks with
        | nil =>
          cases heq
          simp [hblank] at hnode
        | cons blank blanks =>
          cases heq
          simp only [List.mem_cons, forall_eq_or_imp] at hall
          exact ⟨node, blanks.length + 1, ih.2 ⟨blanks, rest, rfl, rfl, hall.2, hnode⟩, rfl, rfl⟩
    · next hblank =>
      simp only [Option.some.injEq, Prod.mk.injEq]
      constructor
      · rintro ⟨rfl, rfl⟩
        exact ⟨[], tail, rfl, rfl, by simp, by simpa using hblank⟩
      · rintro ⟨blanks, rest, heq, rfl, hall, hnode⟩
        cases blanks with
        | nil =>
          cases heq
          exact ⟨rfl, rfl⟩
        | cons blank blanks =>
          cases heq
          exact absurd (hall _ (by simp)) hblank

/-- The front of a sequence is one of its nodes. -/
theorem significant?_count {nodes : List Node} {node : Node} {count : Nat}
    (h : significant? nodes = some (node, count)) : 0 < count ∧ count ≤ nodes.length := by
  obtain ⟨blanks, rest, rfl, rfl, _, _⟩ := significant?_eq_some_iff.1 h
  simp

end SqlFootprint.Node
