import SqlFootprint.Grouping.Alias
import SqlFootprint.Grouping.Comparison
import SqlFootprint.Grouping.ItemList

/-!
# Steps of a grouping

What one step of each grouping does: whether a group starts at a node, its kind, and how far it
goes.
-/

namespace SqlFootprint.Grouping

/-- What group starts at a node, and how many of the nodes after it belong to it. -/
abbrev Step := Node → List Node → Option (Kind Node × Nat)

/-- The group of a node with its alias. -/
def aliasStep : Step := fun node rest ↦
  (aliasedKind? node).bind fun kind ↦
    (aliasAfter? rest).map fun (aliasName, count) ↦ (kind aliasName, count)

/-- The group of two operands that are compared. -/
def comparisonStep : Step := fun left rest ↦
  if isOperand left then
    (comparisonAfter? rest).map fun (operator, right, count) ↦
      (.comparison left operator right, count)
  else none

/-- The group of items with commas between them. -/
def listStep : Step := fun node rest ↦
  if isListItem node ∧ 0 < listSpan false rest then some (.identifierList, listSpan false rest)
  else none

end SqlFootprint.Grouping
