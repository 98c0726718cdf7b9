import SqlFootprint.Tree.Significant

/-!
# Comparisons

Two operands with a comparison operator between them make a comparison. Of a chain
`a = b = c` the first two operands are taken.
-/

namespace SqlFootprint.Grouping

/-- The operators that compare. -/
def comparisonOperators : List String := ["=", "==", "<>", "!=", "<", ">", "<=", ">=", "<=>"]

/-- The node can be compared: a name, a call or a value. -/
def isOperand (node : Node) : Bool :=
  match node.kind with
  | .identifier _ | .function _ _ | .literal => true
  | _ => false

/-- The operator and the right operand at the front of a sequence, and how many nodes there are up
to the operand and with it. -/
def comparisonAfter? (nodes : List Node) : Option (String × Node × Nat) :=
  match Node.significant? nodes with
  | none => none
  | some (operator, count) =>
    if operator.isAnyPunctuation && comparisonOperators.contains operator.text then
      (Node.significant? (nodes.drop count)).bind fun (right, more) ↦
        if isOperand right then some (operator.text, right, count + more) else none
    else none

/-- Group operands that are compared, from left to right. -/
def groupComparisons : List Node → List Node
  | [] => []
  | left :: rest =>
    if isOperand left then
      match comparisonAfter? rest with
      | none => left :: groupComparisons rest
      | some (operator, right, count) =>
        .group (.comparison left operator right) (left :: rest.take count) ::
          groupComparisons (rest.drop count)
    else left :: groupComparisons rest
termination_by nodes => nodes.length
decreasing_by all_goals simp only [List.length_cons, List.length_drop]; omega

end SqlFootprint.Grouping
